import RpcMt.TerminationInv

/-! The moves of the server loop, from one place of `svc_run`, `svc_poll` and `svc_getreq_poll_mt` to the
next, keep the invariant of an orderly run: where `xports` and `xports_pollfd` may be NULL they lead only
to places that do without them, and the buffer has the room that the scan was begun with. -/

open RpcMt.Arrays RpcMt.Arrays.Heap

namespace RpcMt.Termination

/-! ### One move of the loop -/

section Moves

variable {p : Process} {s s' : Server} {code : List Act} {pc : Pc}

theorem Room.mono {m n : Nat} (h : Room s n) (hle : m ≤ n) : Room s m := by
  rcases h with hzero | ⟨hsome, hn⟩
  · exact .inl (by omega)
  · exact .inr ⟨hsome, hle.trans hn⟩

theorem afterExit_of_quiet (h : pc.quiet = true) : pc.afterExit p = true := by
  cases pc with
  | test max => cases h
  | fsckBusy c => cases h
  | reapAll c => cases h
  | serving st npoll i => cases h
  | _ => exact h

theorem Gone.next {missing : List Table} (h : Gone s missing) (hheap : s'.heap = s.heap)
    (hmax : s'.maxPollfd = s.maxPollfd) (hspared : spares missing s'.code = true) : Gone s' missing := by
  refine ⟨?_, ?_, hmax.trans h.maxPollfd, fun t hmem => ?_, hspared⟩
  · rw [hheap, h.xports]
  · rw [hheap, h.pollfd]
  · unfold Server.live
    rw [hheap]
    exact h.kept t hmem

/-- Away from the places where `svc_exit` may come, all the arrays are there. -/
theorem Standing.whole_of (h : Standing p s) (hpc : s.pc.afterExit p = false) :
    s.svcQuit = false ∧ ∀ t, s.live (.table t) = true := by
  cases h with
  | gone missing hquit hgone hafter hmissing =>
      rw [hpc] at hafter
      cases hafter
  | whole hquit hlive => exact ⟨hquit, hlive⟩
  | dead hquit hxports hbuf hall hquiet =>
      rw [afterExit_of_quiet hquiet] at hpc
      cases hpc

theorem Standing.alive (h : Standing p s) (hquit : s.svcQuit = false) :
    (∃ missing, Gone s missing ∧ s.pc.afterExit p = true ∧
      (s.pc.early = true ∨ ∀ t ∈ missing, t = .xports ∨ t = .xportsPollfd)) ∨
    ∀ t, s.live (.table t) = true := by
  cases h with
  | gone missing hq hgone hafter hmissing => exact .inl ⟨missing, hgone, hafter, hmissing⟩
  | whole hq hlive => exact .inr hlive
  | dead hq hxports hbuf hall hquiet =>
      rw [hquit] at hq
      cases hq

theorem Standing.whole_of_xports (h : Standing p s) (hx : s.noXports = false)
    (hquit : s.svcQuit = false) : ∀ t, s.live (.table t) = true := by
  rcases h.alive hquit with ⟨missing, hgone, _⟩ | hlive
  · rw [hgone.noXports] at hx
    cases hx
  · exact hlive

/-- A move without an access, to a place that needs no more of the arrays. -/
theorem Standing.move (h : Standing p s) (hafter : s.pc.afterExit p = true → pc.afterExit p = true)
    (hquiet : s.pc.quiet = true → pc.quiet = true) (hearly : s.pc.early = true → pc.early = true) :
    Standing p (s.goTo [] pc) := by
  cases h with
  | gone missing hquit hgone hpc hmissing =>
      exact .gone missing hquit (hgone.next rfl rfl rfl)
        (hafter hpc) (hmissing.imp_left hearly)
  | whole hquit hlive => exact .whole hquit hlive
  | dead hquit hxports hbuf hall hpc =>
      exact .dead hquit hxports hbuf (fun a ha => absurd ha List.not_mem_nil) (hquiet hpc)

/-- Out of the loop and to its top the way is open everywhere. -/
theorem Standing.out (h : Standing p s) (hearly : pc.early = true) (hquiet : pc.quiet = true) :
    Standing p (s.goTo [] pc) :=
  h.move (fun _ => afterExit_of_quiet hquiet) (fun _ => hquiet) fun _ => hearly

/-- The arrays of the registry and what is pending are as before. -/
theorem Standing.frame (h : Standing p s) (ht : ∀ t, Same s.heap s'.heap (.table t))
    (hquit : s'.svcQuit = s.svcQuit) (hmax : s'.maxPollfd = s.maxPollfd)
    (hbuf : s.pollfdv = none → s'.pollfdv = none) (hcode : s'.code = s.code) (hpc : s'.pc = s.pc) :
    Standing p s' := by
  cases h with
  | gone missing hq hgone hafter hmissing =>
      refine .gone missing (hquit ▸ hq) ⟨?_, ?_, hmax ▸ hgone.maxPollfd, ?_, hcode ▸ hgone.spared⟩
        (hpc ▸ hafter) (hpc ▸ hmissing)
      · rw [(ht .xports).1, hgone.xports]
      · rw [(ht .xportsPollfd).1, hgone.pollfd]
      · exact fun t hmem => live_of_same (ht t) (hgone.kept t hmem)
  | whole hq hlive => exact .whole (hquit ▸ hq) fun t => live_of_same (ht t) (hlive t)
  | dead hq hxports hb hall hquiet =>
      refine .dead (hquit ▸ hq) ?_ (hbuf hb) (hcode ▸ hall) (hpc ▸ hquiet)
      unfold Server.noXports
      rw [(ht .xports).1]
      exact hxports

theorem Inv.goTo (h : Inv p s) (hne : s.pc ≠ .idle) (hst : Standing p (s.goTo code pc))
    (hroom : Room s pc.need)
    (hpending : ∀ i, Act.pollfdv i ∈ code → pc ≠ .idle ∧ Room s (i + 1)) (hshaped : pc.Shaped) :
    Inv p (s.goTo code pc) := by
  have hapart : Apart s (s.goTo code pc) := .of_heap rfl rfl rfl rfl rfl rfl
  exact ⟨hst, h.buffer.frame (Same.refl _ _) rfl rfl (fun _ => hne) hroom hpending hshaped,
    fun hquit => (h.callouts hquit).apart hapart⟩

/-- A move to a place where the buffer is not needed, with no access to it. -/
theorem Inv.goTo_out (h : Inv p s) (hne : s.pc ≠ .idle) (hst : Standing p (s.goTo code pc))
    (hneed : pc.need = 0) (hcode : ∀ i, Act.pollfdv i ∉ code) (hshaped : pc.Shaped) :
    Inv p (s.goTo code pc) :=
  h.goTo hne hst (.inl hneed) (fun i hi => absurd hi (hcode i)) hshaped

theorem top_inv (h : Inv p s) (hpc : s.pc = .top) :
    Inv p (if s.svcQuit then s.goTo [] .cleanup else s.goTo [] (.test s.maxPollfd)) := by
  have hne : s.pc ≠ .idle := fun heq => nomatch hpc.symm.trans heq
  cases hquit : s.svcQuit with
  | true => exact h.goTo_out hne (h.standing.out rfl rfl) rfl (fun i => List.not_mem_nil) trivial
  | false =>
      refine h.goTo_out hne ?_ rfl (fun i => List.not_mem_nil) trivial
      rcases h.standing.alive hquit with ⟨missing, hgone, _⟩ | hlive
      · have htest : Pc.early (.test s.maxPollfd) = true := decide_eq_true hgone.maxPollfd
        exact .gone missing hquit (hgone.next rfl rfl rfl) htest (.inl htest)
      · exact .whole hquit hlive

theorem test_inv {max : Nat} (h : Inv p s) (hpc : s.pc = .test max) :
    Inv p (if max = 0 ∧ s.heap.ptr (.table .xportsPollfd) = none then s.goTo [] .cleanup
      else xprtGcReapAll s (.svcRun max)) := by
  have hne : s.pc ≠ .idle := fun heq => nomatch hpc.symm.trans heq
  split
  · exact h.goTo_out hne (h.standing.out rfl rfl) rfl (fun i => List.not_mem_nil) trivial
  · rename_i hout
    refine h.goTo_out hne ?_ rfl (fun i => by simp) trivial
    cases h.standing with
    | gone missing hq hgone hafter hmissing =>
        rw [hpc] at hafter
        exact absurd ⟨of_decide_eq_true hafter, hgone.pollfd⟩ hout
    | whole hq hlive => exact .whole hq hlive
    | dead hq hxports hbuf hall hquiet =>
        rw [hpc] at hquiet
        cases hquiet

theorem svcRunCleanup_ok (h : Buffer s) (hne : s.pc ≠ .idle) :
    ∃ h', svcRunCleanup s = .ok { s with heap := h' } ∧ h'.ptr = s.heap.ptr ∧
      ∀ g, g ≠ .prevPollfd → Same s.heap h' g := by
  have hfree : ∃ h', s.heap.free s.pollfdv = some h' ∧ h'.ptr = s.heap.ptr ∧
      ∀ g, g ≠ .prevPollfd → Same s.heap h' g := by
    by_cases hbuf : s.pollfdv = none
    · rw [hbuf]
      exact ⟨s.heap, rfl, rfl, fun g _ => Same.refl s.heap g⟩
    · rw [h.handed hbuf]
      apply free_freeable
      exact .inr (by rw [h.held hbuf hne]; rfl)
  obtain ⟨h', hok, hptr, hsame⟩ := hfree
  refine ⟨h', ?_, hptr, hsame⟩
  rw [svcRunCleanup, hok]
  rfl

theorem cleanup_inv (h : Inv p s) (hpc : s.pc = .cleanup) :
    ∃ s', (do let s ← svcRunCleanup s; pure (s.goTo [] .idle) : Res Server) = .ok s' ∧ Inv p s' := by
  have hne : s.pc ≠ .idle := fun heq => nomatch hpc.symm.trans heq
  obtain ⟨h', hok, hptr, hsame⟩ := svcRunCleanup_ok h.buffer hne
  rw [hok]
  refine ⟨_, rfl, ?_, ?_, ?_⟩
  · have hframe : Standing p { s with heap := h' } :=
      h.standing.frame (fun t => hsame _ (fun heq => nomatch heq)) rfl rfl id rfl rfl
    exact hframe.out rfl rfl
  · refine ⟨?_, ?_, fun _ hidle => absurd rfl hidle, .inl rfl, fun i hi => absurd hi List.not_mem_nil,
      trivial⟩
    · intro hzero
      show h'.ptr _ = none
      rw [hptr]
      exact h.buffer.fresh hzero
    · intro hsome
      show s.pollfdv = h'.ptr _
      rw [hptr]
      exact h.buffer.handed hsome
  · intro hquit
    exact (h.callouts hquit).frame (hsame _ (fun heq => nomatch heq))
      (fun i => hsame _ (fun heq => nomatch heq)) rfl rfl

theorem le_fdAllocRoundup (n : Nat) : n ≤ fdAllocRoundup n := by
  unfold fdAllocRoundup fdAllocGranularity
  omega

/-- `pollfd_realloc` hands out an array of the size asked for, unless the one it keeps has been freed
by the cleanup of an earlier run. -/
theorem pollfdRealloc_ok (h : Buffer s) (hne : s.pc ≠ .idle) (max : Nat)
    (horderly : s.pollfdv = none → s.prevPollfdAlloc = 0) :
    ∃ h' alloc, pollfdRealloc s max =
        .ok { s with heap := h', prevPollfdAlloc := alloc, pollfdv := h'.ptr .prevPollfd } ∧
      (∀ g, g ≠ .prevPollfd → Same s.heap h' g) ∧
      (alloc = 0 → h'.ptr .prevPollfd = none) ∧
      (h'.ptr .prevPollfd ≠ none → h'.arr .prevPollfd = some alloc) ∧
      (max = 0 ∨ h'.ptr .prevPollfd ≠ none) ∧ max ≤ alloc ∧
      (max = 0 → s.pollfdv = none → h'.ptr .prevPollfd = none) := by
  have hle := le_fdAllocRoundup max
  have hnone : s.pollfdv = none → s.heap.ptr .prevPollfd = none :=
    fun hbuf => h.fresh (horderly hbuf)
  unfold pollfdRealloc
  by_cases hlt : s.prevPollfdAlloc < fdAllocRoundup max
  · have hfreeable : s.heap.Freeable .prevPollfd := by
      by_cases hbuf : s.pollfdv = none
      · exact .inl (hnone hbuf)
      · exact .inr (by rw [h.held hbuf hne]; rfl)
    obtain ⟨h', hok, harr, hsame⟩ := realloc_freeable (fdAllocRoundup max) hfreeable
    have hsome : h'.ptr .prevPollfd ≠ none :=
      Option.isSome_iff_ne_none.mp (ptr_of_arr (by rw [harr]; rfl))
    refine ⟨h', fdAllocRoundup max, ?_, hsame, ?_, fun _ => harr, .inr hsome, hle, ?_⟩
    · rw [if_pos hlt, hok]
      rfl
    · intro hzero
      omega
    · intro hmax
      subst hmax
      exact absurd hlt (Nat.not_lt_zero _)
  · refine ⟨s.heap, s.prevPollfdAlloc, if_neg hlt, fun g _ => Same.refl s.heap g, h.fresh, ?_, ?_,
      by omega, fun _ => hnone⟩
    · intro hsome
      exact h.held (fun hbuf => hsome (hnone hbuf)) hne
    · by_cases hbuf : s.pollfdv = none
      · have := horderly hbuf
        exact .inl (by omega)
      · exact .inr (h.handed hbuf ▸ hbuf)

theorem svcPoll_inv {max : Nat} (h : Inv p s) (hpc : s.pc = .svcPoll max)
    (horderly : s.pollfdv = none → s.prevPollfdAlloc = 0) :
    ∃ s', (do let s ← pollfdRealloc s max; pure (s.goTo [] (.scan max 0 0)) : Res Server) = .ok s' ∧
      Inv p s' := by
  have hne : s.pc ≠ .idle := fun heq => nomatch hpc.symm.trans heq
  obtain ⟨h', alloc, hok, hsame, hfresh, hlive, hroom, hle, hzero⟩ :=
    pollfdRealloc_ok h.buffer hne max horderly
  rw [hok]
  refine ⟨_, rfl, ?_, ?_, ?_⟩
  · have ht : ∀ t, Same s.heap h' (.table t) := fun t => hsame _ (fun heq => nomatch heq)
    cases h.standing with
    | gone missing hq hgone hafter hmissing =>
        rw [hpc] at hafter hmissing
        have hmax : max = 0 := of_decide_eq_true hafter
        refine .gone missing hq ⟨(ht _).1.trans hgone.xports, (ht _).1.trans hgone.pollfd,
          hgone.maxPollfd, fun t hmem => live_of_same (ht t) (hgone.kept t hmem), rfl⟩ ?_ hmissing
        exact decide_eq_true (Nat.le_of_eq hmax)
    | whole hq hall => exact .whole hq fun t => live_of_same (ht t) (hall t)
    | dead hq hxports hbuf hall hquiet =>
        rw [hpc] at hquiet
        have hmax : max = 0 := of_decide_eq_true hquiet
        refine .dead hq ?_ (hzero hmax hbuf) (fun a ha => absurd ha List.not_mem_nil) ?_
        · show (h'.ptr _).isNone = false
          rw [(ht .xports).1]
          exact hxports
        · exact decide_eq_true (Nat.le_of_eq hmax)
  · refine ⟨hfresh, fun _ => rfl, fun hsome _ => hlive hsome, ?_, fun i hi => absurd hi List.not_mem_nil,
      ⟨Nat.le_refl 0, Nat.zero_le max⟩⟩
    rcases hroom with hmax | hsome
    · exact .inl hmax
    · exact .inr ⟨hsome, hle⟩
  · intro hquit
    exact (h.callouts hquit).frame (hsame _ (fun heq => nomatch heq))
      (fun i => hsame _ (fun heq => nomatch heq)) rfl rfl

theorem slotCode_pollfdv {npoll i : Nat} {k : Slot} (hi : Act.pollfdv i ∈ slotCode npoll k) :
    i = npoll := by
  cases k with
  | unused => simp [slotCode] at hi
  | skipped => simp [slotCode] at hi
  | polled => simpa [slotCode] using hi

theorem slot_inv {max i npoll : Nat} {k : Slot} (h : Inv p s) (hpc : s.pc = .scan max i npoll)
    (hi : i < max) :
    Inv p (s.goTo (slotCode npoll k) (.scan max (i + 1) (if k = .polled then npoll + 1 else npoll))) := by
  have hne : s.pc ≠ .idle := fun heq => nomatch hpc.symm.trans heq
  have hroom := h.buffer.room
  have hshaped := h.buffer.shaped
  rw [hpc] at hroom hshaped
  obtain ⟨hnpoll, _⟩ := hshaped
  obtain ⟨hquit, hlive⟩ := h.standing.whole_of (by
    rw [hpc]
    exact decide_eq_false (Nat.not_le_of_lt hi))
  refine h.goTo hne (.whole hquit hlive) hroom ?_ ?_
  · intro j hj
    rw [slotCode_pollfdv hj]
    exact ⟨(fun heq => nomatch heq), hroom.mono (show npoll + 1 ≤ max by omega)⟩
  · show (if k = .polled then npoll + 1 else npoll) ≤ i + 1 ∧ i + 1 ≤ max
    split <;> omega

theorem scanned_inv {max i npoll : Nat} (h : Inv p s) (hpc : s.pc = .scan max i npoll) :
    Inv p (s.goTo [] (.poll max npoll)) := by
  have hne : s.pc ≠ .idle := fun heq => nomatch hpc.symm.trans heq
  have hroom := h.buffer.room
  have hshaped := h.buffer.shaped
  rw [hpc] at hroom hshaped
  refine h.goTo hne ?_ hroom (fun j hj => absurd hj List.not_mem_nil) (hshaped.1.trans hshaped.2)
  apply h.standing.move (fun _ => rfl) (fun _ => rfl)
  rw [hpc]
  exact id

theorem spares_map_pollfdv (missing : List Table) (is : List Nat) :
    spares missing (is.map .pollfdv) = true := by
  induction is with
  | nil => rfl
  | cons i is ih => exact ih

theorem ready_inv {max npoll : Nat} (h : Inv p s) (hpc : s.pc = .poll max npoll) (hpos : 0 < npoll)
    (horderly : s.noXports = false ∨ p.mtmode = 0) :
    Inv p (s.goTo ((List.range npoll).map .pollfdv) (.serving .getreqPoll npoll 0)) := by
  have hne : s.pc ≠ .idle := fun heq => nomatch hpc.symm.trans heq
  have hmax := h.buffer.room
  have hshaped : npoll ≤ max := by
    have hshaped := h.buffer.shaped
    rwa [hpc] at hshaped
  rw [hpc] at hmax
  have hroom : Room s npoll := hmax.mono hshaped
  refine h.goTo hne ?_ hroom ?_ trivial
  · cases h.standing with
    | gone missing hq hgone hafter hmissing =>
        rw [hpc] at hmissing
        refine .gone missing hq (hgone.next rfl rfl
          (spares_map_pollfdv missing _)) ?_ hmissing
        rcases horderly with hx | hmode
        · rw [hgone.noXports] at hx
          cases hx
        · exact decide_eq_true hmode
    | whole hq hlive => exact .whole hq hlive
    | dead hq hxports hbuf hall hquiet =>
        rcases hroom with hzero | ⟨hsome, _⟩
        · omega
        · exact absurd hbuf hsome
  · intro i hi
    obtain ⟨j, hj, heq⟩ := List.mem_map.mp hi
    cases heq
    exact ⟨(fun heq => nomatch heq), hroom.mono (List.mem_range.mp hj)⟩

/-- A move inside `xprt_gc_reap_all` or `rate_limit`, with accesses to the registry only. -/
theorem Inv.busy (h : Inv p s) (hne : s.pc ≠ .idle) (hst : Standing p (s.goTo code pc))
    (hneed : pc.need ≤ s.pc.need) (hcode : ∀ i, Act.pollfdv i ∉ code) (hshaped : pc.Shaped) :
    Inv p (s.goTo code pc) :=
  h.goTo hne hst (h.buffer.room.mono hneed) (fun i hi => absurd hi (hcode i)) hshaped

/-- `fsck_busy` and `count_busy` go on only while `xports` is there. -/
theorem again_inv (h : Inv p s) (hne : s.pc ≠ .idle) (horderly : OrderlyAt p s (.go .again))
    (hshaped : s.pc.Shaped) : Inv p (s.goTo [.index .xports] s.pc) :=
  h.busy hne (.whole horderly.2 (h.standing.whole_of_xports horderly.1 horderly.2)) (Nat.le_refl _)
    (fun i => by simp) hshaped

theorem pollfdv_not_mem_xprtRegister (clone vacant : Bool) (i : Nat) :
    Act.pollfdv i ∉ xprtRegister clone vacant := by
  cases clone <;> simp [xprtRegister]

theorem pollfdv_not_mem_xprtUnregister (clone : Bool) (i : Nat) :
    Act.pollfdv i ∉ xprtUnregister clone := by
  cases clone <;> simp [xprtUnregister, xprtExists]

theorem pollfdv_not_mem_retire (i : Nat) : Act.pollfdv i ∉ retire p := by
  unfold retire
  split
  · exact pollfdv_not_mem_xprtUnregister false i
  · simp [xprtGcMark]

theorem pollfdv_not_mem_reap (r : Reap) (i : Nat) : Act.pollfdv i ∉ xprtGcReapTurn r := by
  cases r with
  | destroyed clone =>
      have := pollfdv_not_mem_xprtUnregister clone i
      simp [xprtGcReapTurn, this]
  | _ => simp [xprtGcReapTurn]

theorem pollfdv_not_mem_recv (r : Recv) (i : Nat) : Act.pollfdv i ∉ recvCode p r := by
  cases r with
  | fail => simp [recvCode]
  | accept vacant => exact pollfdv_not_mem_xprtRegister false vacant i
  | refused => simp [recvCode]
  | returned =>
      have := @pollfdv_not_mem_retire p i
      simp [recvCode, this]
  | dispatch clone =>
      have := pollfdv_not_mem_xprtRegister true false i
      simp only [recvCode, List.mem_cons, not_or]
      refine ⟨(fun heq => nomatch heq), ?_⟩
      split
      · exact this
      · exact List.not_mem_nil

theorem not_mem_freed {missing : List Table} {t : Table}
    (h : ∀ t ∈ missing, t = .xports ∨ t = .xportsPollfd) (hx : t ≠ .xports) (hfd : t ≠ .xportsPollfd) :
    t ∉ missing := by
  intro hmem
  rcases h t hmem with heq | heq
  · exact hx heq
  · exact hfd heq

theorem reap_inv {c : Caller} {r : Reap} (h : Inv p s) (hpc : s.pc = .reapAll c)
    (horderly : s.noXports = false ∨ r = .unmarked) : Inv p (s.goTo (xprtGcReapTurn r) (.reapAll c)) := by
  have hne : s.pc ≠ .idle := fun heq => nomatch hpc.symm.trans heq
  refine h.busy hne ?_ (hpc ▸ Nat.le_refl _) (pollfdv_not_mem_reap r) trivial
  cases h.standing with
  | gone missing hq hgone hafter hmissing =>
      rw [hpc] at hafter hmissing
      rcases horderly with hx | rfl
      · rw [hgone.noXports] at hx
        cases hx
      · have hfreed := hmissing.resolve_left fun hearly => nomatch hearly
        refine .gone missing hq (hgone.next rfl rfl ?_) hafter
          (.inr hfreed)
        have hgc : Table.xprtgcIdset ∉ missing := not_mem_freed hfreed (by decide) (by decide)
        show spares missing [.index .xprtgcIdset] = true
        simp [spares, hgc]
  | whole hq hlive => exact .whole hq hlive
  | dead hq hxports hbuf hall hquiet =>
      rw [hpc] at hquiet
      cases hquiet

theorem reaped_inv {c : Caller} (h : Inv p s) (hpc : s.pc = .reapAll c) : Inv p (reaped s c) := by
  have hne : s.pc ≠ .idle := fun heq => nomatch hpc.symm.trans heq
  cases c with
  | svcRun max =>
      obtain ⟨hquit, hlive⟩ := h.standing.whole_of (hpc ▸ rfl)
      exact h.busy hne (.whole hquit hlive) (hpc ▸ Nat.le_refl _) (fun i => by simp) trivial
  | svcGetreqCommon npoll i =>
      obtain ⟨hquit, hlive⟩ := h.standing.whole_of (hpc ▸ rfl)
      exact h.busy hne (.whole hquit hlive) (hpc ▸ Nat.le_refl _) (fun i => by simp) trivial
  | svcGetreqPoll =>
      exact h.goTo_out hne (h.standing.out rfl rfl) rfl (fun i => List.not_mem_nil) trivial

/-- What `svc_getreq_poll_mt` may do next: the accesses to `pollfdv` are those of the descriptors that
were polled, and in mtmode 0 it keeps away from `xports` and `xports_pollfd` where these may be NULL, but
to retire a transport. -/
structure Served (p : Process) (npoll : Nat) (g : Go) (code : List Act) (pc : Pc) : Prop where
  need : pc.need ≤ npoll
  running : pc ≠ .idle
  shaped : pc.Shaped
  pollfdv : ∀ i, Act.pollfdv i ∈ code → i < npoll
  spared : p.mtmode = 0 → g ≠ .recv .returned → g ≠ .stat .died →
    pc.afterExit p = true ∧ ∀ missing : List Table,
      (∀ t ∈ missing, t = .xports ∨ t = .xportsPollfd) → spares missing code = true

theorem Served.serving {npoll i : Nat} {g : Go} {st : Stage}
    (hpollfdv : ∀ j, Act.pollfdv j ∈ code → j < npoll)
    (hspared : p.mtmode = 0 → g ≠ .recv .returned → g ≠ .stat .died → ∀ missing : List Table,
      (∀ t ∈ missing, t = .xports ∨ t = .xportsPollfd) → spares missing code = true) :
    Served p npoll g code (.serving st npoll i) :=
  ⟨Nat.le_refl npoll, (fun heq => nomatch heq), trivial, hpollfdv,
    fun hmode hret hdied => ⟨decide_eq_true hmode, hspared hmode hret hdied⟩⟩

theorem spares_recvCode {missing : List Table} {r : Recv} (hmode : p.mtmode = 0)
    (hret : r ≠ .returned) : spares missing (recvCode p r) = true := by
  cases r with
  | returned => exact absurd rfl hret
  | dispatch clone => simp [recvCode, hmode, spares]
  | _ => rfl

theorem serve_cases {npoll i : Nat} {st : Stage} {g : Go} (hst : serve p s npoll i st g = some s') :
    ∃ code pc, s' = s.goTo code pc ∧ Served p npoll g code pc := by
  have hnone : ∀ j, Act.pollfdv j ∈ ([] : List Act) → j < npoll :=
    fun j hj => absurd hj List.not_mem_nil
  have hexamine : ∀ j, Act.pollfdv j ∈ [Act.pollfdv i, checkXports] → j = i :=
    fun j hj => by simpa [checkXports] using hj
  cases st with
  | getreqPoll =>
      cases g with
      | fd revents =>
          by_cases hlt : i < npoll
          · cases revents with
            | false =>
                cases (if_pos hlt).symm.trans hst
                refine ⟨_, _, rfl, .serving (fun j hj => ?_) fun _ _ _ _ _ => rfl⟩
                exact Act.pollfdv.inj (List.mem_singleton.mp hj) ▸ hlt
            | true =>
                cases (if_pos hlt).symm.trans hst
                refine ⟨_, _, rfl, .serving (fun j hj => ?_) fun _ _ _ _ _ => rfl⟩
                exact (hexamine j hj) ▸ hlt
          · cases revents <;> cases (if_neg hlt).symm.trans hst
      | next =>
          cases hst
          by_cases hmode : p.mtmode = 0
          · rw [if_pos hmode]
            refine ⟨_, _, rfl, Nat.zero_le _, (fun heq => by cases heq), trivial, hnone, ?_⟩
            exact fun _ _ _ => ⟨rfl, fun _ _ => rfl⟩
          · rw [if_neg hmode]
            refine ⟨_, _, rfl, Nat.zero_le _, (fun heq => by cases heq), trivial, fun j hj => ?_, ?_⟩
            · simp at hj
            · exact fun hzero => absurd hzero hmode
      | _ => cases hst
  | common =>
      cases g with
      | next =>
          cases hst
          by_cases hmode : p.mtmode = 0
          · rw [if_pos hmode]
            refine ⟨_, _, rfl, .serving (fun j hj => ?_) fun _ _ _ missing hmissing => ?_⟩
            · simp at hj
            · have hsock : Table.sockXports ∉ missing := not_mem_freed hmissing (by decide) (by decide)
              simp [spares, hsock]
          · rw [if_neg hmode]
            refine ⟨_, _, rfl, Nat.le_refl npoll, (fun heq => by cases heq), trivial, fun j hj => ?_, ?_⟩
            · simp at hj
            · exact fun hzero => absurd hzero hmode
      | _ => cases hst
  | found =>
      cases g with
      | next =>
          cases hst
          exact ⟨_, _, rfl, .serving hnone fun _ _ _ _ _ => rfl⟩
      | xprt =>
          cases hst
          refine ⟨_, _, rfl, .serving (fun j hj => ?_) fun _ _ _ _ _ => rfl⟩
          simp [xprtExists] at hj
      | _ => cases hst
  | recv =>
      cases g with
      | recv r =>
          cases hst
          refine ⟨_, _, rfl, .serving (fun j hj => absurd hj (pollfdv_not_mem_recv r j)) ?_⟩
          intro hmode hret _ missing _
          exact spares_recvCode hmode fun heq => hret (heq ▸ rfl)
      | _ => cases hst
  | service =>
      cases g with
      | next =>
          cases hst
          exact ⟨_, _, rfl, .serving hnone fun _ _ _ _ _ => rfl⟩
      | _ => cases hst
  | stat =>
      cases g with
      | stat xrv =>
          cases xrv with
          | died =>
              cases hst
              refine ⟨_, _, rfl, .serving (fun j hj => absurd hj (pollfdv_not_mem_retire j)) ?_⟩
              exact fun _ _ hdied => absurd rfl hdied
          | morereqs =>
              cases hst
              exact ⟨_, _, rfl, .serving hnone fun _ _ _ _ _ => rfl⟩
          | idle =>
              cases hst
              exact ⟨_, _, rfl, .serving hnone fun _ _ _ _ _ => rfl⟩
      | _ => cases hst

theorem serve_inv {npoll i : Nat} {st : Stage} {g : Go} (h : Inv p s)
    (hpc : s.pc = .serving st npoll i) (horderly : OrderlyAt p s (.go g))
    (hst : serve p s npoll i st g = some s') : Inv p s' := by
  have hne : s.pc ≠ .idle := fun heq => nomatch hpc.symm.trans heq
  have hroom := h.buffer.room
  rw [hpc] at hroom
  obtain ⟨code, pc, rfl, hserved⟩ := serve_cases hst
  refine h.goTo hne ?_ (hroom.mono hserved.need) ?_ hserved.shaped
  · cases h.standing with
    | gone missing hq hgone hafter hmissing =>
        rw [hpc] at hafter hmissing
        have hx := hgone.noXports
        have hret : g ≠ .recv .returned := by
          rintro rfl
          exact Bool.noConfusion (hx.symm.trans horderly)
        have hdied : g ≠ .stat .died := by
          rintro rfl
          exact Bool.noConfusion (hx.symm.trans horderly)
        have hfreed := hmissing.resolve_left (fun hearly => nomatch hearly)
        obtain ⟨hnext, hspares⟩ := hserved.spared (of_decide_eq_true hafter) hret hdied
        exact .gone missing hq
          (hgone.next rfl rfl (hspares missing hfreed)) hnext
          (.inr hfreed)
    | whole hq hlive => exact .whole hq hlive
    | dead hq hxports hbuf hall hquiet =>
        rw [hpc] at hquiet
        cases hquiet
  · intro j hj
    exact ⟨hserved.running, hroom.mono (hserved.pollfdv j hj)⟩

theorem go_inv {g : Go} {r : Res Server} (h : Inv p s) (horderly : OrderlyAt p s (.go g))
    (hst : go p s s.pc g = some r) : ∃ s', r = .ok s' ∧ Inv p s' := by
  generalize hpc : s.pc = pc at hst
  have hne : s.pc ≠ .idle := by
    intro hidle
    rw [← hpc, hidle] at hst
    cases hst
  cases pc with
  | idle => exact absurd hpc hne
  | top =>
      cases g with
      | next =>
          cases hst
          exact ⟨_, rfl, top_inv h hpc⟩
      | _ => cases hst
  | test max =>
      cases g with
      | next =>
          cases hst
          exact ⟨_, rfl, test_inv h hpc⟩
      | _ => cases hst
  | cleanup =>
      cases g with
      | next =>
          cases hst
          exact cleanup_inv h hpc
      | _ => cases hst
  | fsckBusy c =>
      cases g with
      | again =>
          cases hst
          exact ⟨_, rfl, hpc ▸ again_inv h hne horderly (hpc ▸ trivial)⟩
      | next =>
          cases hst
          refine ⟨_, rfl, h.busy hne (h.standing.move ?_ ?_ ?_) (hpc ▸ Nat.le_refl _)
            (fun i => List.not_mem_nil) trivial⟩
          all_goals
            rw [hpc]
            exact id
      | _ => cases hst
  | reapAll c =>
      cases g with
      | reap r =>
          cases hst
          exact ⟨_, rfl, reap_inv h hpc horderly⟩
      | next =>
          cases hst
          exact ⟨_, rfl, reaped_inv h hpc⟩
      | _ => cases hst
  | countBusy max =>
      cases g with
      | again =>
          cases hst
          exact ⟨_, rfl, hpc ▸ again_inv h hne horderly (hpc ▸ trivial)⟩
      | next =>
          cases hst
          refine ⟨_, rfl, h.busy hne (h.standing.move ?_ ?_ ?_) (hpc ▸ Nat.le_refl _)
            (fun i => List.not_mem_nil) trivial⟩
          all_goals
            rw [hpc]
            exact id
      | _ => cases hst
  | svcPoll max =>
      cases g with
      | next =>
          cases hst
          exact svcPoll_inv h hpc (horderly (by rw [hpc]; rfl))
      | _ => cases hst
  | scan max i npoll =>
      cases g with
      | slot k =>
          by_cases hlt : i < max
          · cases (if_pos hlt).symm.trans hst
            exact ⟨_, rfl, slot_inv h hpc hlt⟩
          · cases (if_neg hlt).symm.trans hst
      | next =>
          by_cases hlt : i < max
          · cases (if_pos hlt).symm.trans hst
          · cases (if_neg hlt).symm.trans hst
            exact ⟨_, rfl, scanned_inv h hpc⟩
      | _ => cases hst
  | poll max npoll =>
      cases g with
      | next =>
          cases hst
          exact ⟨_, rfl, h.goTo_out hne (h.standing.out rfl rfl) rfl (fun i => List.not_mem_nil) trivial⟩
      | ready =>
          by_cases hpos : 0 < npoll
          · cases (if_pos hpos).symm.trans hst
            exact ⟨_, rfl, ready_inv h hpc hpos horderly⟩
          · cases (if_neg hpos).symm.trans hst
      | _ => cases hst
  | serving st npoll i =>
      obtain ⟨s', hserve, rfl⟩ := Option.map_eq_some_iff.mp hst
      exact ⟨s', rfl, serve_inv h hpc horderly hserve⟩

end Moves

end RpcMt.Termination
