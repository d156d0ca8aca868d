import RpcMt.Termination

/-! When the server loop terminates cleanly. `svc_exit` frees two arrays that most of the loop indexes
without a test, `svc_shutdown` frees all of them and leaves every variable as it was, and a buffer that
`svc_run_cleanup` has freed is the one that `pollfd_realloc` hands out in the next run. In a run in
which both come only where nothing is in use that they free, and in which no second `svc_run` polls,
no access meets an array that is not there. -/

open RpcMt.Arrays RpcMt.Arrays.Heap

namespace RpcMt.Termination

/-! ### The runs that are considered -/

/-- The pending accesses are not to these arrays, up to a call of `create_xports`. -/
def spares (freed : List Table) : List Act → Bool
  | [] => true
  | .index t :: code => !freed.contains t && spares freed code
  | .createXports :: _ => true
  | .initPollfd _ :: _ => false
  | .pollfdRemove :: _ => false
  | .guarded _ :: code => spares freed code
  | .pollfdv _ :: code => spares freed code
  | .callouts :: code => spares freed code

/-- The loop is at a place from which it gets to `svc_quit` without an access to the registry. -/
def Pc.quiet : Pc → Bool
  | .idle => true
  | .top => true
  | .cleanup => true
  | .countBusy max => max = 0
  | .svcPoll max => max = 0
  | .scan max i _ => max ≤ i
  | .poll _ _ => true
  | _ => false

/-- The loop is at a place from which it gets out without `xports` and `xports_pollfd`: before its test
of `xports_pollfd`, where mtmode 0 has no transports to reap, or past the last reading of `xports` by
`fsck_busy`, with no marks left. -/
def Pc.afterExit (p : Process) : Pc → Bool
  | .test max => max = 0
  | .fsckBusy c => c = .svcGetreqPoll
  | .reapAll c => c = .svcGetreqPoll
  | .serving _ _ _ => p.mtmode = 0
  | pc => pc.quiet

def Pc.polls : Pc → Bool
  | .svcPoll _ => true
  | _ => false

/-- What may come where. `svc_exit` and `svc_shutdown` find nothing in use that they free; the buffer
that an earlier run has freed is not polled through; once `xports` has been freed `fsck_busy` and
`count_busy` have no more ids to read, no transport is reaped or destroyed, and no descriptor is found
ready except in mtmode 0; and after `svc_shutdown` nothing is registered. -/
def OrderlyAt (p : Process) (s : Server) : Event → Prop
  | .svcExit => s.svcQuit = false ∧
      (s.noXports = false → s.pc.afterExit p = true ∧ spares freedByExit s.code = true)
  | .svcShutdown _ => s.svcQuit = false ∧ s.noXports = false ∧ s.pollfdv = none ∧ s.pc.quiet = true ∧
      (∀ a ∈ s.code, a = .createXports) ∧ ∀ i, i < s.l1Len → i ∈ s.svcHead
  | .go .next => s.pc.polls = true → s.pollfdv = none → s.prevPollfdAlloc = 0
  | .go .again => s.noXports = false ∧ s.svcQuit = false
  | .go (.reap r) => s.noXports = false ∨ r = .unmarked
  | .go .ready => s.noXports = false ∨ p.mtmode = 0
  | .go (.recv .returned) => s.noXports = false
  | .go (.stat .died) => s.noXports = false
  | .svcCreate _ => s.svcQuit = false
  | .svcRegister _ => s.svcQuit = false
  | .svcUnregister _ => s.svcQuit = false
  | _ => True

def Orderly (p : Process) (st : Res Server) (e : Event) : Prop :=
  match st with
  | .ok s => OrderlyAt p s e
  | .error _ => True

/-- `svc_poll` polls through an array of the size it has asked for. -/
def PollsLive (s : Server) : Prop :=
  match s.pc with
  | .poll max _ => max = 0 ∨ ∃ n, s.heap.find s.pollfdv = some n ∧ max ≤ n
  | _ => True

/-! ### The invariant -/

/-- How much of `pollfdv` the rest of `svc_poll` may index. -/
def Caller.need : Caller → Nat
  | .svcGetreqCommon npoll _ => npoll
  | _ => 0

def Pc.need : Pc → Nat
  | .fsckBusy c => c.need
  | .reapAll c => c.need
  | .scan max _ _ => max
  | .poll max _ => max
  | .serving _ npoll _ => npoll
  | _ => 0

def Pc.Shaped : Pc → Prop
  | .scan max i npoll => npoll ≤ i ∧ i ≤ max
  | .poll max npoll => npoll ≤ max
  | _ => True

/-- The first `n` entries of `pollfdv` are there while the loop runs. -/
def Room (s : Server) (n : Nat) : Prop := n = 0 ∨ (s.pollfdv ≠ none ∧ n ≤ s.prevPollfdAlloc)

/-- `pollfdv` is NULL or what `pollfd_realloc` has handed out, which is live from the first poll of a
run to its cleanup. -/
structure Buffer (s : Server) : Prop where
  fresh : s.prevPollfdAlloc = 0 → s.heap.ptr .prevPollfd = none
  handed : s.pollfdv ≠ none → s.pollfdv = s.heap.ptr .prevPollfd
  held : s.pollfdv ≠ none → s.pc ≠ .idle → s.heap.arr .prevPollfd = some s.prevPollfdAlloc
  room : Room s s.pc.need
  pending : ∀ i, Act.pollfdv i ∈ s.code → s.pc ≠ .idle ∧ Room s (i + 1)
  shaped : s.pc.Shaped

/-- The callouts on the list are live and are entries of `l1_vec`. -/
structure Callouts (s : Server) : Prop where
  vec : (s.heap.ptr .l1Vec = none ∧ s.l1Len = 0) ∨ s.live .l1Vec = true
  mem : ∀ i ∈ s.svcHead, i < s.l1Len ∧ s.live (.callout i) = true
  nodup : s.svcHead.Nodup

/-- `xports` and `xports_pollfd` are NULL, and the pending accesses are to arrays that are there. -/
structure Gone (s : Server) (missing : List Table) : Prop where
  xports : s.heap.ptr (.table .xports) = none
  pollfd : s.heap.ptr (.table .xportsPollfd) = none
  maxPollfd : s.maxPollfd = 0
  kept : ∀ t, t ∉ missing → s.live (.table t) = true
  spared : spares missing s.code = true

def Pc.early : Pc → Bool
  | .idle => true
  | .top => true
  | .test max => max = 0
  | .cleanup => true
  | _ => false

/-- The arrays of the registry: not there, all there, or freed by `svc_shutdown`. -/
inductive Standing (p : Process) (s : Server) : Prop
  | gone (missing : List Table) (hquit : s.svcQuit = false) (hgone : Gone s missing)
      (hpc : s.pc.afterExit p = true)
      (hmissing : s.pc.early = true ∨ ∀ t ∈ missing, t = .xports ∨ t = .xportsPollfd)
  | whole (hquit : s.svcQuit = false) (hlive : ∀ t, s.live (.table t) = true)
  | dead (hquit : s.svcQuit = true) (hxports : s.noXports = false) (hbuf : s.pollfdv = none)
      (hcode : ∀ a ∈ s.code, a = .createXports) (hpc : s.pc.quiet = true)

structure Inv (p : Process) (s : Server) : Prop where
  standing : Standing p s
  buffer : Buffer s
  callouts : s.svcQuit = false → Callouts s

/-! ### The arrays of the registry -/

section Tables

variable {p : Process} {s s' : Server}

theorem noXports_of_live (h : s.live (.table .xports) = true) : s.noXports = false := by
  have hptr := ptr_of_arr h
  unfold Server.noXports
  cases hp : s.heap.ptr (.table .xports) with
  | none => simp [hp] at hptr
  | some b => rfl

theorem Gone.noXports {missing : List Table} (h : Gone s missing) : s.noXports = true := by
  simp [Server.noXports, h.xports]

theorem index_of_live {g : Global} (h : s.live g = true) : s.index g = .ok s := if_pos h

theorem live_of_same {g : Global} (hs : Same s.heap s'.heap g) (h : s.live g = true) :
    s'.live g = true := by
  unfold Server.live
  rw [hs.2]
  exact h

theorem mem_createOrder (t : Table) : Global.table t ∈ createOrder := by
  cases t <;> decide

theorem createXports_live (t : Table) : (createXports p s).live (.table t) = true := by
  show (Heap.arr _ _).isSome = true
  rw [createXports, arr_mallocAll _ _ (mem_createOrder t)]
  rfl

theorem createXports_same {g : Global} (hg : g ∉ createOrder) :
    Same s.heap (createXports p s).heap g :=
  same_mallocAll s.heap _ hg

/-- The callouts, the buffer and the rest of the state but the registry. -/
structure Apart (s s' : Server) : Prop where
  heap : ∀ g, (∀ t, g ≠ .table t) → Same s.heap s'.heap g
  pollfdv : s'.pollfdv = s.pollfdv
  prevPollfdAlloc : s'.prevPollfdAlloc = s.prevPollfdAlloc
  svcQuit : s'.svcQuit = s.svcQuit
  svcHead : s'.svcHead = s.svcHead
  l1Len : s'.l1Len = s.l1Len

theorem Callouts.frame (h : Callouts s) (hvec : Same s.heap s'.heap .l1Vec)
    (hentry : ∀ i, Same s.heap s'.heap (.callout i)) (hhead : s'.svcHead = s.svcHead)
    (hlen : s'.l1Len = s.l1Len) : Callouts s' := by
  refine ⟨?_, ?_, hhead ▸ h.nodup⟩
  · rcases h.vec with ⟨hnull, hzero⟩ | hlive
    · exact .inl ⟨hvec.1.trans hnull, hlen.trans hzero⟩
    · exact .inr (live_of_same hvec hlive)
  · intro i hi
    rw [hhead] at hi
    rw [hlen]
    exact ⟨(h.mem i hi).1, live_of_same (hentry i) (h.mem i hi).2⟩

theorem Callouts.apart (h : Callouts s) (ha : Apart s s') : Callouts s' :=
  h.frame (ha.heap .l1Vec fun _ hg => nomatch hg) (fun i => ha.heap (.callout i) fun _ hg => nomatch hg)
    ha.svcHead ha.l1Len

theorem Room.frame {n : Nat} (h : Room s n) (hbuf : s'.pollfdv = s.pollfdv)
    (halloc : s'.prevPollfdAlloc = s.prevPollfdAlloc) : Room s' n := by
  unfold Room
  rw [hbuf, halloc]
  exact h

/-- What is needed of the buffer while only other arrays and the place change. -/
theorem Buffer.frame (h : Buffer s) (hprev : Same s.heap s'.heap .prevPollfd)
    (hbuf : s'.pollfdv = s.pollfdv) (halloc : s'.prevPollfdAlloc = s.prevPollfdAlloc)
    (hidle : s'.pc ≠ .idle → s.pc ≠ .idle) (hroom : Room s s'.pc.need)
    (hpending : ∀ i, Act.pollfdv i ∈ s'.code → s'.pc ≠ .idle ∧ Room s (i + 1))
    (hshaped : s'.pc.Shaped) : Buffer s' := by
  refine ⟨?_, ?_, ?_, hroom.frame hbuf halloc, ?_, hshaped⟩
  · intro hzero
    rw [hprev.1]
    exact h.fresh (halloc ▸ hzero)
  · intro hsome
    rw [hprev.1, hbuf]
    exact h.handed (hbuf ▸ hsome)
  · intro hsome hne
    rw [hprev.2, halloc]
    exact h.held (hbuf ▸ hsome) (hidle hne)
  · intro i hi
    obtain ⟨hne, hr⟩ := hpending i hi
    exact ⟨hne, hr.frame hbuf halloc⟩

/-- The loop is where it was, with no more accesses to the buffer pending. -/
theorem Buffer.stay (h : Buffer s) (hprev : Same s.heap s'.heap .prevPollfd)
    (hbuf : s'.pollfdv = s.pollfdv) (halloc : s'.prevPollfdAlloc = s.prevPollfdAlloc)
    (hpc : s'.pc = s.pc) (hcode : ∀ i, Act.pollfdv i ∈ s'.code → Act.pollfdv i ∈ s.code) :
    Buffer s' := by
  apply h.frame hprev hbuf halloc
  · rw [hpc]
    exact id
  · rw [hpc]
    exact h.room
  · intro i hi
    rw [hpc]
    exact h.pending i (hcode i hi)
  · rw [hpc]
    exact h.shaped

end Tables

/-! ### One access -/

section Accesses

variable {p : Process} {s s' : Server} {a : Act} {code : List Act}

theorem spares_tail {missing : List Table} (h : spares missing (a :: code) = true)
    (ha : a ≠ .createXports) : spares missing code = true := by
  cases a with
  | index t => exact (Bool.and_eq_true_iff.mp h).2
  | guarded ts => exact h
  | createXports => exact absurd rfl ha
  | initPollfd vacant => cases h
  | pollfdRemove => cases h
  | pollfdv i => exact h
  | callouts => exact h

theorem Standing.tail (h : Standing p s) (hcode : s.code = a :: code) (ha : a ≠ .createXports) :
    Standing p { s with code := code } := by
  cases h with
  | gone missing hquit hgone hpc hmissing =>
      have hspared := hgone.spared
      rw [hcode] at hspared
      exact .gone missing hquit
        ⟨hgone.xports, hgone.pollfd, hgone.maxPollfd, hgone.kept, spares_tail hspared ha⟩ hpc hmissing
  | whole hquit hlive => exact .whole hquit hlive
  | dead hquit hxports hbuf hall hpc =>
      rw [hcode] at hall
      exact absurd (hall a List.mem_cons_self) ha

theorem Standing.live_index {t : Table} (h : Standing p s) (hcode : s.code = .index t :: code) :
    s.live (.table t) = true := by
  cases h with
  | gone missing hquit hgone hpc hmissing =>
      have hspared := hgone.spared
      rw [hcode, spares, Bool.and_eq_true_iff] at hspared
      apply hgone.kept
      simpa using hspared.1
  | whole hquit hlive => exact hlive t
  | dead hquit hxports hbuf hall hpc =>
      rw [hcode] at hall
      cases hall _ List.mem_cons_self

/-- The poll slots are only accessed where all the arrays are there. -/
theorem Standing.live_slots (h : Standing p s) (hcode : s.code = a :: code)
    (ha : a = .pollfdRemove ∨ ∃ vacant, a = .initPollfd vacant) :
    s.svcQuit = false ∧ ∀ t, s.live (.table t) = true := by
  cases h with
  | gone missing hquit hgone hpc hmissing =>
      have hspared := hgone.spared
      rw [hcode] at hspared
      rcases ha with rfl | ⟨vacant, rfl⟩
      · cases hspared
      · cases hspared
  | whole hquit hlive => exact ⟨hquit, hlive⟩
  | dead hquit hxports hbuf hall hpc =>
      rw [hcode] at hall
      have hcreate := hall a List.mem_cons_self
      rcases ha with rfl | ⟨vacant, rfl⟩
      · cases hcreate
      · cases hcreate

theorem Standing.quit_of_callouts (h : Standing p s) (hcode : s.code = .callouts :: code) :
    s.svcQuit = false := by
  cases h with
  | gone missing hquit hgone hpc hmissing => exact hquit
  | whole hquit hlive => exact hquit
  | dead hquit hxports hbuf hall hpc =>
      rw [hcode] at hall
      cases hall _ List.mem_cons_self

/-- After `create_xports` all the arrays are there, or they have been freed for good. -/
theorem Standing.create (h : Standing p s) (hcode : s.code = .createXports :: code) :
    Standing p (if s.noXports then createXports p { s with code := code } else { s with code := code }) := by
  cases h with
  | gone missing hquit hgone hpc hmissing =>
      rw [if_pos hgone.noXports]
      exact .whole hquit fun t => createXports_live t
  | whole hquit hlive =>
      rw [noXports_of_live (hlive .xports)]
      exact .whole hquit hlive
  | dead hquit hxports hbuf hall hpc =>
      rw [hxports]
      rw [hcode] at hall
      exact .dead hquit hxports hbuf (fun b hb => hall b (List.mem_cons_of_mem _ hb)) hpc

theorem Buffer.pop (h : Buffer s) (ha : Apart s s') (hpc : s'.pc = s.pc)
    (hcode : ∀ i, Act.pollfdv i ∈ s'.code → Act.pollfdv i ∈ s.code) : Buffer s' :=
  h.stay (ha.heap .prevPollfd fun _ hg => nomatch hg) ha.pollfdv ha.prevPollfdAlloc hpc hcode

theorem Buffer.find (h : Buffer s) (hne : s.pc ≠ .idle) {n : Nat} (hroom : Room s n) (hpos : 0 < n) :
    s.heap.find s.pollfdv = some s.prevPollfdAlloc ∧ n ≤ s.prevPollfdAlloc := by
  rcases hroom with hzero | ⟨hsome, hle⟩
  · omega
  · rw [h.handed hsome]
    exact ⟨h.held hsome hne, hle⟩

theorem Apart.of_heap (hheap : s'.heap = s.heap) (hbuf : s'.pollfdv = s.pollfdv)
    (halloc : s'.prevPollfdAlloc = s.prevPollfdAlloc) (hquit : s'.svcQuit = s.svcQuit)
    (hhead : s'.svcHead = s.svcHead) (hlen : s'.l1Len = s.l1Len) : Apart s s' :=
  ⟨fun g _ => hheap ▸ Same.refl s.heap g, hbuf, halloc, hquit, hhead, hlen⟩

theorem Apart.setCode (s : Server) (code : List Act) : Apart s { s with code := code } :=
  .of_heap rfl rfl rfl rfl rfl rfl

theorem Apart.create (s : Server) (code : List Act) :
    Apart s (createXports p { s with code := code }) := by
  refine ⟨fun g hg => createXports_same fun hmem => ?_, rfl, rfl, rfl, rfl, rfl⟩
  simp only [createOrder, List.mem_cons, List.not_mem_nil, or_false] at hmem
  rcases hmem with h | h | h | h | h | h | h
  all_goals exact hg _ h

/-- An access whose arrays are there leaves the rest of the state as it was. -/
theorem Inv.read (h : Inv p s) (hcode : s.code = a :: code) (ha : a ≠ .createXports) :
    Inv p { s with code := code } := by
  refine ⟨h.standing.tail hcode ha, ?_, fun hquit => (h.callouts hquit).apart (Apart.setCode s code)⟩
  refine h.buffer.pop (Apart.setCode s code) rfl fun i hi => ?_
  rw [hcode]
  exact List.mem_cons_of_mem a hi

theorem perform_inv (h : Inv p s) (hcode : s.code = a :: code) (hguard : ∀ ts, a ≠ .guarded ts) :
    ∃ s', perform p { s with code := code } a = .ok s' ∧ Inv p s' := by
  cases a with
  | index t =>
      exact ⟨_, index_of_live (h.standing.live_index hcode), h.read hcode (fun heq => nomatch heq)⟩
  | guarded ts => exact absurd rfl (hguard ts)
  | createXports =>
      refine ⟨_, rfl, h.standing.create hcode, ?_, ?_⟩
      · split
        · exact h.buffer.pop (Apart.create s code) rfl fun i hi => hcode ▸ List.mem_cons_of_mem _ hi
        · exact h.buffer.pop (Apart.setCode s code) rfl fun i hi => hcode ▸ List.mem_cons_of_mem _ hi
      · split
        · exact fun hquit => (h.callouts hquit).apart (Apart.create s code)
        · exact fun hquit => (h.callouts hquit).apart (Apart.setCode s code)
  | initPollfd vacant =>
      obtain ⟨hquit, hlive⟩ := h.standing.live_slots hcode (.inr ⟨vacant, rfl⟩)
      have hread := h.read hcode (fun heq => nomatch heq)
      have hindex : ({ s with code := code } : Server).index (.table .xportsPollfd) = .ok _ :=
        if_pos (hlive .xportsPollfd)
      rw [perform, hindex]
      refine ⟨_, rfl, ?_⟩
      split
      · exact hread
      · have hapart : Apart s { s with code := code, maxPollfd := s.maxPollfd + 1 } :=
          .of_heap rfl rfl rfl rfl rfl rfl
        refine ⟨.whole hquit hlive, ?_, fun _ => (h.callouts hquit).apart hapart⟩
        exact h.buffer.pop hapart rfl fun i hi => hcode ▸ List.mem_cons_of_mem _ hi
  | pollfdRemove =>
      obtain ⟨_, hlive⟩ := h.standing.live_slots hcode (.inl rfl)
      refine ⟨{ s with code := code }, ?_, h.read hcode (fun heq => nomatch heq)⟩
      rw [perform]
      split
      · rfl
      · exact index_of_live (hlive .xportsPollfd)
  | pollfdv i =>
      obtain ⟨hne, hroom⟩ := h.buffer.pending i (hcode ▸ List.mem_cons_self)
      obtain ⟨hfind, hlt⟩ := h.buffer.find hne hroom (Nat.succ_pos i)
      refine ⟨{ s with code := code }, ?_, h.read hcode (fun heq => nomatch heq)⟩
      simp only [perform, hfind]
      exact if_pos hlt
  | callouts =>
      have hcallouts := h.callouts (h.standing.quit_of_callouts hcode)
      refine ⟨{ s with code := code }, if_pos ?_, h.read hcode (fun heq => nomatch heq)⟩
      rw [List.all_eq_true]
      exact fun i hi => (hcallouts.mem i hi).2

theorem actStep_inv {r : Res Server} (h : Inv p s) (hst : actStep p s = some r) :
    ∃ s', r = .ok s' ∧ Inv p s' := by
  unfold actStep at hst
  split at hst
  · cases hst
  · rename_i ts code hcode
    cases hst
    refine ⟨_, rfl, ?_⟩
    have hread := h.read hcode (fun heq => nomatch heq)
    have hbuffer : Buffer { s with code := ts.map .index ++ code } := by
      refine h.buffer.pop (Apart.setCode s _) rfl fun i hi => ?_
      rw [hcode]
      rcases List.mem_append.mp hi with hmap | htail
      · obtain ⟨t, _, heq⟩ := List.mem_map.mp hmap
        cases heq
      · exact List.mem_cons_of_mem _ htail
    cases hx : s.noXports with
    | true => exact hread
    | false =>
        refine ⟨?_, hbuffer, fun hq => (h.callouts hq).apart (Apart.setCode s _)⟩
        cases h.standing with
        | gone missing hquit hgone hpc hmissing =>
            rw [hgone.noXports] at hx
            cases hx
        | whole hquit hlive => exact .whole hquit hlive
        | dead hquit hxports hbuf hall hpc =>
            rw [hcode] at hall
            cases hall _ List.mem_cons_self
  · rename_i a code hguard hcode
    obtain ⟨s', hperform, hinv⟩ := perform_inv h hcode hguard
    cases hst
    exact ⟨s', hperform, hinv⟩

end Accesses

end RpcMt.Termination
