import Mathlib.Data.List.Nodup
import RpcMt.TerminationMoves

/-! `svc_exit`, `svc_shutdown` and the registration of services keep the invariant too, so that an orderly
run meets no array that is not there. Three runs that are not orderly, and what becomes of them, come
last. -/

open RpcMt.Arrays RpcMt.Arrays.Heap RpcMt.Runs

namespace RpcMt.Termination

/-! ### The calls from outside the loop -/

section Calls

variable {p : Process} {s s' : Server}

theorem svcRun_inv (h : Inv p s) : Inv p (svcRun s) := by
  refine ⟨?_, ?_, ?_⟩
  · cases h.standing with
    | gone missing hq hgone hafter hmissing =>
        exact .gone missing hq (hgone.next rfl rfl rfl) rfl (.inl rfl)
    | whole hq hlive => exact .whole hq hlive
    | dead hq hxports hbuf hall hquiet =>
        exact .dead hq hxports rfl (fun a ha => List.mem_singleton.mp ha) rfl
  · refine ⟨h.buffer.fresh, fun hsome => absurd rfl hsome, fun hsome => absurd rfl hsome, .inl rfl,
      fun i hi => ?_, trivial⟩
    simp [svcRun] at hi
  · intro hquit
    exact (h.callouts hquit).frame (Same.refl _ _) (fun i => Same.refl _ _) rfl rfl

theorem svcCreate_inv (h : Inv p s) (hquit : s.svcQuit = false) (vacant : Bool) :
    Inv p { s with code := xprtRegister false vacant } := by
  refine ⟨?_, ?_, fun hq => (h.callouts hq).apart (Apart.setCode s _)⟩
  · rcases h.standing.alive hquit with ⟨missing, hgone, hafter, hmissing⟩ | hlive
    · exact .gone missing hquit (hgone.next rfl rfl rfl) hafter hmissing
    · exact .whole hquit hlive
  · exact h.buffer.pop (Apart.setCode s _) rfl
      fun i hi => absurd hi (pollfdv_not_mem_xprtRegister false vacant i)

theorem mem_freedByExit {g : Global} (hg : g ∈ freedByExit.map Global.table) :
    g = .table .xports ∨ g = .table .xportsPollfd := by
  simpa [freedByExit, eq_comm] using hg

theorem svcExit_inv (h : Inv p s) (horderly : OrderlyAt p s .svcExit) :
    ∃ s', svcExit s = .ok s' ∧ Inv p s' := by
  obtain ⟨hquit, hplace⟩ := horderly
  have hfreeable : ∀ g ∈ freedByExit.map Global.table, s.heap.Freeable g := by
    intro g hg
    rcases h.standing.alive hquit with ⟨missing, hgone, _⟩ | hlive
    · rcases mem_freedByExit hg with rfl | rfl
      · exact .inl hgone.xports
      · exact .inl hgone.pollfd
    · rcases mem_freedByExit hg with rfl | rfl
      · exact .inr (hlive _)
      · exact .inr (hlive _)
  obtain ⟨h', hok, hnull, hsame⟩ := dropAll_freeable (by decide) hfreeable
  have hother : ∀ g, (∀ t, g ≠ .table t) → Same s.heap h' g := by
    intro g hg
    apply hsame
    intro hmem
    rcases mem_freedByExit hmem with heq | heq
    · exact hg _ heq
    · exact hg _ heq
  have htable : ∀ t, t ≠ .xports → t ≠ .xportsPollfd → Same s.heap h' (.table t) := by
    intro t hx hfd
    apply hsame
    intro hmem
    rcases mem_freedByExit hmem with heq | heq
    · exact hx (Global.table.inj heq)
    · exact hfd (Global.table.inj heq)
  have hapart : Apart s { s with heap := h', maxPollfd := 0 } := ⟨hother, rfl, rfl, rfl, rfl, rfl⟩
  refine ⟨{ s with heap := h', maxPollfd := 0 }, ?_, ?_, h.buffer.pop hapart rfl fun _ => id,
    fun hq => (h.callouts hq).apart hapart⟩
  · unfold svcExit
    rw [hok]
    rfl
  · have hx : h'.ptr (.table .xports) = none := hnull _ (by decide)
    have hfd : h'.ptr (.table .xportsPollfd) = none := hnull _ (by decide)
    rcases h.standing.alive hquit with ⟨missing, hgone, hafter, hmissing⟩ | hlive
    · refine .gone missing hquit ⟨hx, hfd, rfl, fun t hmem => ?_, hgone.spared⟩ hafter hmissing
      have hlive := hgone.kept t hmem
      have hptr := Option.isSome_iff_ne_none.mp (ptr_of_arr hlive)
      refine live_of_same (htable t ?_ ?_) hlive
      · rintro rfl
        exact hptr hgone.xports
      · rintro rfl
        exact hptr hgone.pollfd
    · obtain ⟨hafter, hspares⟩ := hplace (noXports_of_live (hlive _))
      refine .gone freedByExit hquit ⟨hx, hfd, rfl, fun t hmem => ?_, hspares⟩ hafter
        (.inr fun t ht => ?_)
      · have hne : t ≠ .xports ∧ t ≠ .xportsPollfd := by simpa [freedByExit] using hmem
        exact live_of_same (htable t hne.1 hne.2) (hlive t)
      · simpa [freedByExit] using ht

/-- The accesses of `xprt_destroy_all` change nothing. -/
def Act.reads : Act → Bool
  | .index _ => true
  | .guarded _ => true
  | .pollfdRemove => true
  | _ => false

theorem perform_reads {a : Act} (hlive : ∀ t, s.live (.table t) = true) (ha : a.reads = true) :
    perform p s a = .ok s := by
  cases a with
  | index t => exact index_of_live (hlive t)
  | guarded ts => exact if_pos (by simp [hlive])
  | pollfdRemove =>
      rw [perform]
      split
      · rfl
      · exact index_of_live (hlive _)
  | createXports => cases ha
  | initPollfd vacant => cases ha
  | pollfdv i => cases ha
  | callouts => cases ha

theorem performAll_reads {acts : List Act} (hlive : ∀ t, s.live (.table t) = true)
    (hacts : ∀ a ∈ acts, a.reads = true) : performAll p s acts = .ok s := by
  induction acts with
  | nil => rfl
  | cons a acts ih =>
      rw [performAll, perform_reads hlive (hacts a List.mem_cons_self)]
      exact ih fun b hb => hacts b (List.mem_cons_of_mem a hb)

theorem reads_destroyTurn (turn : Option Bool) : ∀ a ∈ destroyTurn turn, a.reads = true := by
  cases turn with
  | none => decide
  | some clone => cases clone <;> decide

theorem reads_xprtDestroyAll (turns : List (Option Bool)) :
    ∀ a ∈ xprtDestroyAll turns, a.reads = true := by
  intro a ha
  rcases List.mem_cons.mp ha with rfl | hturns
  · rfl
  · obtain ⟨turn, _, hturn⟩ := List.mem_flatMap.mp hturns
    exact reads_destroyTurn turn a hturn

/-- `svc_l1_cleanup` frees every entry of `l1_vec` once, if none has been freed before. -/
theorem svcL1Cleanup_ok (h : Callouts s) (hall : ∀ i, i < s.l1Len → i ∈ s.svcHead) :
    ∃ h', svcL1Cleanup s = .ok { s with heap := h' } ∧ (∀ t, Same s.heap h' (.table t)) ∧
      Same s.heap h' .prevPollfd := by
  unfold svcL1Cleanup
  by_cases hnull : s.heap.ptr .l1Vec = none
  · rw [if_pos hnull]
    exact ⟨s.heap, rfl, fun t => Same.refl _ _, Same.refl _ _⟩
  · rw [if_neg hnull]
    have hvec : s.live .l1Vec = true := h.vec.resolve_left fun hno => hnull hno.1
    have hnodup : (l1Entries s).Nodup :=
      List.Nodup.map (fun i j heq => Global.callout.inj heq) List.nodup_range
    have hfreeable : ∀ g ∈ l1Entries s, s.heap.Freeable g := by
      intro g hg
      obtain ⟨i, hi, rfl⟩ := List.mem_map.mp hg
      exact .inr (h.mem i (hall i (List.mem_range.mp hi))).2
    obtain ⟨h₁, hdrop, _, hsame₁⟩ := dropAll_freeable hnodup hfreeable
    have hkept : ∀ g, (∀ i, g ≠ .callout i) → Same s.heap h₁ g := by
      intro g hg
      apply hsame₁
      intro hmem
      obtain ⟨i, _, heq⟩ := List.mem_map.mp hmem
      exact hg i heq.symm
    have hvec₁ := hkept .l1Vec fun i heq => nomatch heq
    obtain ⟨h₂, hfree, _, hsame₂⟩ := free_freeable (hvec₁.freeable (.inr hvec))
    refine ⟨h₂, ?_, fun t => ?_, ?_⟩
    · rw [index_of_live hvec]
      show (do
        let h ← faulty (s.heap.dropAll (l1Entries s))
        let h ← faulty (h.free (h.ptr .l1Vec))
        pure { s with heap := h } : Res Server) = _
      rw [hdrop]
      show (do
        let h ← faulty (h₁.free (h₁.ptr .l1Vec))
        pure { s with heap := h } : Res Server) = _
      rw [hfree]
      rfl
    · exact (hkept (.table t) fun i heq => nomatch heq).trans (hsame₂ _ fun heq => nomatch heq)
    · exact (hkept .prevPollfd fun i heq => nomatch heq).trans (hsame₂ _ fun heq => nomatch heq)

theorem svcRunCleanup_null (hbuf : s.pollfdv = none) : svcRunCleanup s = .ok s := by
  cases s
  cases hbuf
  rfl

/-- Where the loop does not use the arrays any more, `svc_shutdown` frees each of them once. -/
theorem svcShutdown_inv {turns : List (Option Bool)} (h : Inv p s)
    (horderly : OrderlyAt p s (.svcShutdown turns)) :
    ∃ s', svcShutdown p s turns = .ok s' ∧ Inv p s' := by
  obtain ⟨hquit, hx, hbuf, hquiet, hcode, hall⟩ := horderly
  have hlive := h.standing.whole_of_xports hx hquit
  have hreads : performAll p { s with svcQuit := true } (xprtDestroyAll turns) =
      .ok { s with svcQuit := true } :=
    performAll_reads hlive (reads_xprtDestroyAll turns)
  have hfreeable : ∀ g ∈ destroyOrder, s.heap.Freeable g := by
    intro g hg
    simp only [destroyOrder, List.mem_cons, List.not_mem_nil, or_false] at hg
    rcases hg with rfl | rfl | rfl | rfl | rfl | rfl | rfl
    all_goals exact .inr (hlive _)
  obtain ⟨h₁, hfree, hptr₁, hsame₁⟩ := freeAll_freeable (by decide) hfreeable
  have hother : ∀ g, (∀ t, g ≠ .table t) → Same s.heap h₁ g := by
    intro g hg
    apply hsame₁
    simp only [destroyOrder, List.mem_cons, List.not_mem_nil, or_false, not_or]
    exact ⟨hg _, hg _, hg _, hg _, hg _, hg _, hg _⟩
  have hcallouts : Callouts ({ s with svcQuit := true, heap := h₁ } : Server) :=
    (h.callouts hquit).frame (hother _ fun t heq => nomatch heq)
      (fun i => hother _ fun t heq => nomatch heq) rfl rfl
  obtain ⟨h₂, hl1, htables, hprev⟩ := svcL1Cleanup_ok hcallouts hall
  refine ⟨{ s with svcQuit := true, heap := h₂ }, ?_, ?_, ?_, fun hq => nomatch hq⟩
  · unfold svcShutdown
    rw [hreads]
    show (do
      let s ← destroyXports { s with svcQuit := true }
      let s ← svcRunCleanup s
      svcL1Cleanup s : Res Server) = _
    unfold destroyXports
    rw [hfree]
    show (do
      let s ← svcRunCleanup ({ s with svcQuit := true, heap := h₁ } : Server)
      svcL1Cleanup s : Res Server) = _
    have hclean : svcRunCleanup ({ s with svcQuit := true, heap := h₁ } : Server) = .ok _ :=
      svcRunCleanup_null hbuf
    rw [hclean]
    exact hl1
  · refine .dead rfl ?_ hbuf hcode hquiet
    show (h₂.ptr _).isNone = false
    rw [(htables .xports).1]
    show (h₁.ptr _).isNone = false
    rw [hptr₁]
    exact hx
  · have hsame := (hother .prevPollfd fun t heq => nomatch heq).trans hprev
    refine ⟨fun hzero => hsame.1.trans (h.buffer.fresh hzero), fun hsome => absurd hbuf hsome,
      fun hsome => absurd hbuf hsome, h.buffer.room, h.buffer.pending, h.buffer.shaped⟩

/-- The list of callouts and the test of `svc_register` read arrays that are there. -/
theorem performAll_lookup (h : Inv p s) (hquit : s.svcQuit = false) :
    perform p s .callouts = .ok s ∧ performAll p s [xprtExists, .callouts] = .ok s := by
  have hcallouts : perform p s .callouts = .ok s := by
    refine if_pos ?_
    rw [List.all_eq_true]
    exact fun i hi => ((h.callouts hquit).mem i hi).2
  have hexists : perform p s xprtExists = .ok s := by
    refine if_pos ?_
    rcases h.standing.alive hquit with ⟨missing, hgone, _⟩ | hlive
    · simp [hgone.noXports]
    · simp [hlive]
  refine ⟨hcallouts, ?_⟩
  rw [performAll, hexists]
  show performAll p s [.callouts] = .ok s
  rw [performAll, hcallouts]
  rfl

/-- Arrays other than those of the callouts are as they were, and so is where the loop is. -/
theorem Inv.frame (h : Inv p s) (ht : ∀ t, Same s.heap s'.heap (.table t))
    (hprev : Same s.heap s'.heap .prevPollfd) (hcallouts : Callouts s')
    (hq : s'.svcQuit = s.svcQuit) (hmax : s'.maxPollfd = s.maxPollfd) (hbuf : s'.pollfdv = s.pollfdv)
    (halloc : s'.prevPollfdAlloc = s.prevPollfdAlloc) (hcode : s'.code = s.code) (hpc : s'.pc = s.pc) :
    Inv p s' := by
  refine ⟨h.standing.frame ht hq hmax (fun hnone => hbuf.trans hnone) hcode hpc, ?_, fun _ => hcallouts⟩
  exact h.buffer.stay hprev hbuf halloc hpc fun i hi => hcode ▸ hi

theorem svcL1Room_ok (h : Callouts s) :
    ∃ h', svcL1Room s = .ok { s with heap := h' } ∧ (h'.arr .l1Vec).isSome = true ∧
      ∀ g, g ≠ .l1Vec → Same s.heap h' g := by
  unfold svcL1Room
  by_cases hnull : s.heap.ptr .l1Vec = none
  · have hlen : s.l1Len = 0 := by
      rcases h.vec with ⟨_, hlen⟩ | hlive
      · exact hlen
      · exact absurd hnull (Option.isSome_iff_ne_none.mp (ptr_of_arr hlive))
    refine ⟨s.heap.malloc .l1Vec l1InitSize, ?_, by rw [arr_malloc_self]; rfl,
      fun g hg => same_malloc s.heap _ hg⟩
    rw [if_pos hnull, hlen]
  · have hlive : s.live .l1Vec = true := h.vec.resolve_left fun hno => hnull hno.1
    rw [if_neg hnull]
    split
    · obtain ⟨h', hok, harr, hsame⟩ := realloc_freeable (l1InitSize * 16 / 10) (.inr hlive)
      refine ⟨h', ?_, by rw [harr]; rfl, hsame⟩
      rw [hok]
      rfl
    · exact ⟨s.heap, rfl, hlive, fun g _ => Same.refl _ _⟩

theorem svcL1Alloc_ok (h : Callouts s) :
    ∃ h', svcL1Alloc s = .ok { s with heap := h', l1Len := s.l1Len + 1 } ∧
      (h'.arr .l1Vec).isSome = true ∧ (h'.arr (.callout s.l1Len)).isSome = true ∧
      ∀ g, g ≠ .l1Vec → g ≠ .callout s.l1Len → Same s.heap h' g := by
  obtain ⟨h₁, hroom, hvec, hsame⟩ := svcL1Room_ok h
  have hkept : ∀ g, g ≠ .callout s.l1Len → Same h₁ (h₁.malloc (.callout s.l1Len) 1) g :=
    fun g hg => same_malloc h₁ 1 hg
  refine ⟨h₁.malloc (.callout s.l1Len) 1, ?_, ?_, by rw [arr_malloc_self]; rfl, ?_⟩
  · unfold svcL1Alloc
    rw [hroom]
    have hindex : ({ s with heap := h₁ } : Server).index .l1Vec = .ok _ := if_pos hvec
    show (do
      let s ← ({ s with heap := h₁ } : Server).index .l1Vec
      pure { s with heap := s.heap.malloc (.callout s.l1Len) 1, l1Len := s.l1Len + 1 } : Res Server) = _
    rw [hindex]
    rfl
  · rw [(hkept .l1Vec fun heq => nomatch heq).2]
    exact hvec
  · exact fun g hv hg => (hsame g hv).trans (hkept g hg)

theorem svcRegister_inv (h : Inv p s) (hquit : s.svcQuit = false) (found : Bool) :
    ∃ s', svcRegister p s found = .ok s' ∧ Inv p s' := by
  have hcallouts := h.callouts hquit
  unfold svcRegister
  rw [(performAll_lookup h hquit).2]
  cases found with
  | true => exact ⟨s, rfl, h⟩
  | false =>
      obtain ⟨h', hok, hvec, hnew, hsame⟩ := svcL1Alloc_ok hcallouts
      show ∃ s', (do
        let s' ← svcL1Alloc s
        pure { s' with svcHead := (s'.l1Len - 1) :: s'.svcHead } : Res Server) = .ok s' ∧ Inv p s'
      rw [hok]
      refine ⟨_, rfl, h.frame ?_ ?_ ⟨.inr hvec, ?_, ?_⟩ rfl rfl rfl rfl rfl rfl⟩
      · exact fun t => hsame _ (fun heq => nomatch heq) (fun heq => nomatch heq)
      · exact hsame _ (fun heq => nomatch heq) (fun heq => nomatch heq)
      · intro i hi
        rcases List.mem_cons.mp hi with rfl | hold
        · exact ⟨Nat.lt_succ_self _, hnew⟩
        · obtain ⟨hlt, hlive⟩ := hcallouts.mem i hold
          have hne : Global.callout i ≠ .callout s.l1Len := by
            intro heq
            cases heq
            omega
          exact ⟨Nat.lt_succ_of_lt hlt, live_of_same (hsame _ (fun heq => nomatch heq) hne) hlive⟩
      · refine List.nodup_cons.mpr ⟨fun hold => ?_, hcallouts.nodup⟩
        have hlt : s.l1Len < s.l1Len := (hcallouts.mem _ hold).1
        omega

theorem svcUnregister_inv {i : Nat} (h : Inv p s) (hquit : s.svcQuit = false) (hi : i ∈ s.svcHead) :
    ∃ s', svcUnregister p s i = .ok s' ∧ Inv p s' := by
  have hcallouts := h.callouts hquit
  obtain ⟨h', hok, _, hsame⟩ := free_freeable (.inr (hcallouts.mem i hi).2)
  have hinv : Inv p { s with heap := h', svcHead := s.svcHead.erase i } := by
    refine h.frame (fun t => hsame _ (fun heq => nomatch heq)) (hsame _ (fun heq => nomatch heq))
      ⟨?_, ?_, hcallouts.nodup.erase i⟩ rfl rfl rfl rfl rfl rfl
    · have hvec : Same s.heap h' .l1Vec := hsame _ (fun heq => nomatch heq)
      rcases hcallouts.vec with ⟨hnull, hlen⟩ | hlive
      · exact .inl ⟨hvec.1.trans hnull, hlen⟩
      · exact .inr (live_of_same hvec hlive)
    · intro j hj
      obtain ⟨hne, hmem⟩ := hcallouts.nodup.mem_erase_iff.mp hj
      have hne' : Global.callout j ≠ .callout i := fun heq => hne (Global.callout.inj heq)
      exact ⟨(hcallouts.mem j hmem).1, live_of_same (hsame _ hne') (hcallouts.mem j hmem).2⟩
  refine ⟨_, ?_, hinv⟩
  unfold svcUnregister
  rw [(performAll_lookup h hquit).1]
  show (do
    let h ← faulty (s.heap.free (s.heap.ptr (.callout i)))
    perform p { s with heap := h, svcHead := s.svcHead.erase i } .callouts : Res Server) = _
  rw [hok]
  exact (performAll_lookup hinv hquit).1

end Calls

/-! ### Runs -/

section RunsOfServer

variable {p : Process} {s : Server} {e : Event} {r : Res Server}

theorem serverStep_inv (h : Inv p s) (hok : OrderlyAt p s e) (hst : serverStep p s e = some r) :
    ∃ s', r = .ok s' ∧ Inv p s' := by
  cases e with
  | act => exact actStep_inv h hst
  | go g =>
      rw [serverStep] at hst
      split at hst
      · exact go_inv h hok hst
      · cases hst
  | svcRun =>
      rw [serverStep] at hst
      split at hst
      · cases hst
        exact ⟨_, rfl, svcRun_inv h⟩
      · cases hst
  | svcExit =>
      cases hst
      exact svcExit_inv h hok
  | svcShutdown turns =>
      cases hst
      exact svcShutdown_inv h hok
  | svcCreate vacant =>
      rw [serverStep] at hst
      split at hst
      · cases hst
        exact ⟨_, rfl, svcCreate_inv h hok vacant⟩
      · cases hst
  | svcRegister found =>
      cases hst
      exact svcRegister_inv h hok found
  | svcUnregister i =>
      rw [serverStep] at hst
      split at hst
      · rename_i hi
        cases hst
        exact svcUnregister_inv h hok hi
      · cases hst

theorem inv_start (p : Process) : Inv p start := by
  refine ⟨?_, ?_, fun _ => ⟨.inl ⟨rfl, rfl⟩, fun i hi => absurd hi List.not_mem_nil, List.nodup_nil⟩⟩
  · refine .gone [.xports, .xportsView, .sockXports, .sockSfr, .xportsIdset, .xprtgcIdset, .xportsPollfd]
      rfl ⟨rfl, rfl, rfl, fun t ht => absurd ?_ ht, rfl⟩ rfl (.inl rfl)
    cases t <;> decide
  · exact ⟨fun _ => rfl, fun hsome => absurd rfl hsome, fun hsome => absurd rfl hsome, .inl rfl,
      fun i hi => absurd hi List.not_mem_nil, trivial⟩

theorem Inv.pollsLive (h : Inv p s) : PollsLive s := by
  unfold PollsLive
  split
  · rename_i max npoll hpc
    have hne : s.pc ≠ .idle := fun heq => nomatch hpc.symm.trans heq
    have hroom := h.buffer.room
    rw [hpc] at hroom
    rcases hroom with hzero | ⟨hsome, hle⟩
    · exact .inl hzero
    · rw [h.buffer.handed hsome]
      exact .inr ⟨s.prevPollfdAlloc, h.buffer.held hsome hne, hle⟩
  · trivial

/-- In an orderly run no access of the server loop and no `free` is a fault, wherever `svc_exit` and
`svc_shutdown` come in it, and every poll is through an array of the size asked for. -/
theorem orderly_clean {p : Process} {st : Res Server}
    (h : Reached (step p) (Orderly p) (.ok start) st) : ∃ s, st = .ok s ∧ PollsLive s := by
  have hinv : ∃ s, st = .ok s ∧ Inv p s := by
    refine h.invariant (fun st => ∃ s, st = .ok s ∧ Inv p s) ⟨start, rfl, inv_start p⟩ ?_
    rintro st e st' ⟨s, rfl, hs⟩ hok hst
    exact serverStep_inv hs hok hst
  obtain ⟨s, rfl, hs⟩ := hinv
  exact ⟨s, rfl, hs.pollsLive⟩

end RunsOfServer

/-! ### Runs of a server with one transport and one service -/

instance (p : Process) (s : Server) (e : Event) : Decidable (OrderlyAt p s e) :=
  match e with
  | .svcExit => inferInstanceAs (Decidable (_ ∧ (_ → _ ∧ _)))
  | .svcShutdown _ =>
      inferInstanceAs (Decidable (_ ∧ _ ∧ _ ∧ _ ∧ (∀ a ∈ s.code, _) ∧ ∀ i, i < s.l1Len → _))
  | .go .next => inferInstanceAs (Decidable (_ → _ → _))
  | .go .again => inferInstanceAs (Decidable (_ ∧ _))
  | .go (.reap r) => inferInstanceAs (Decidable (_ ∨ r = _))
  | .go .ready => inferInstanceAs (Decidable (_ ∨ _))
  | .go (.recv .returned) | .go (.stat .died) => inferInstanceAs (Decidable (s.noXports = false))
  | .go (.recv .fail) | .go (.recv (.accept _)) | .go (.recv .refused) | .go (.recv (.dispatch _)) =>
      inferInstanceAs (Decidable True)
  | .go (.stat .morereqs) | .go (.stat .idle) => inferInstanceAs (Decidable True)
  | .go (.slot _) | .go (.fd _) | .go .xprt => inferInstanceAs (Decidable True)
  | .svcCreate _ | .svcRegister _ | .svcUnregister _ => inferInstanceAs (Decidable (s.svcQuit = false))
  | .act | .svcRun => inferInstanceAs (Decidable True)

instance (p : Process) (st : Res Server) (e : Event) : Decidable (Orderly p st e) :=
  match st with
  | .ok s => inferInstanceAs (Decidable (OrderlyAt p s e))
  | .error _ => inferInstanceAs (Decidable True)

def acts (n : Nat) : List Event := List.replicate n .act

def createServer : List Event := .svcCreate false :: acts 7

/-- `svc_run` up to the first access to `pollfdv`, in the slot of the transport. -/
def runToSlot : List Event :=
  [.svcRun, .act, .go .next, .go .next, .act, .go .next, .go .next, .act, .go .next, .go .next,
    .go (.slot .polled)] ++ acts 2

def runToPoll : List Event := runToSlot ++ acts 4 ++ [.go .next]

/-- From `poll` into the service, in a mode with several threads. -/
def pollToService : List Event :=
  [.go .ready, .act, .go (.fd true)] ++ acts 5 ++
    [.go .next, .act, .go .next, .go .next, .act, .go .xprt] ++ acts 2 ++
    [.go (.recv (.dispatch true))] ++ acts 5

/-- A signal handler calls `svc_exit` during `poll`, and `svc_run` returns. -/
def exitInPoll : List Event := [.svcExit, .go .next, .go .next, .go .next, .go .next]

def oneService : List Event := createServer ++ [.svcRegister false]

/-- What a run comes to: the fault that ends it, or where the loop is. -/
def outcome : Res Server → Fault ⊕ Pc
  | .error e => .inl e
  | .ok s => .inr s.pc

theorem orderly_clean_exit : ∃ st s, Reached (step ⟨1, 1024⟩) (Orderly ⟨1, 1024⟩) (.ok start) st ∧
    st = .ok s ∧ s.pc = .idle ∧ PollsLive s := by
  have hrun : (exec (step ⟨1, 1024⟩) (Orderly ⟨1, 1024⟩) (.ok start)
      (oneService ++ runToPoll ++ exitInPoll)).map outcome = some (.inr .idle) := by decide +kernel
  obtain ⟨st, hst, hidle⟩ := Option.map_eq_some_iff.mp hrun
  have hreached := reached_of_exec _ _ .start _ hst
  obtain ⟨s, rfl, hpolls⟩ := orderly_clean hreached
  exact ⟨_, s, hreached, rfl, Sum.inr.inj hidle, hpolls⟩

/-- A service calls `svc_exit`: the reaping at the end of `svc_getreq_poll_mt` reads `xports[0]`. -/
def exitInService : List Event :=
  oneService ++ runToPoll ++ pollToService ++
    [.svcExit, .go .next, .go (.stat .idle), .go .next, .act]

/-- A signal handler calls `svc_shutdown` during `poll`: the cleanup of `svc_run` frees `pollfdv` once
more. -/
def shutdownInPoll : List Event :=
  oneService ++ runToPoll ++ [.svcShutdown [some false], .go .next, .go .next, .go .next]

/-- A second `svc_run`: `pollfd_realloc` hands out the array that the first one has freed. -/
def secondRun : List Event :=
  oneService ++ runToPoll ++ exitInPoll ++ createServer ++ runToSlot ++ [.act]

theorem runs_not_clean :
    (exec (step ⟨1, 1024⟩) anyStep (.ok start) exitInService).map outcome =
        some (.inl .badPointer) ∧
      (exec (step ⟨1, 1024⟩) anyStep (.ok start) shutdownInPoll).map outcome =
        some (.inl .badPointer) ∧
      (exec (step ⟨1, 1024⟩) anyStep (.ok start) secondRun).map outcome = some (.inl .badPointer) ∧
      ¬ ∀ st, Reached (step ⟨1, 1024⟩) anyStep (.ok start) st → ∃ s, st = .ok s ∧ PollsLive s := by
  have hexit : (exec (step ⟨1, 1024⟩) anyStep (.ok start) exitInService).map outcome =
      some (.inl .badPointer) := by decide +kernel
  refine ⟨hexit, by decide +kernel, by decide +kernel, fun hclean => ?_⟩
  obtain ⟨st, hst, hfault⟩ := Option.map_eq_some_iff.mp hexit
  obtain ⟨s, rfl, _⟩ := hclean st (reached_of_exec _ _ .start _ hst)
  cases hfault

end RpcMt.Termination
