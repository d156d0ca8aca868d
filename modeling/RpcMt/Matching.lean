import RpcMt.CalloutOwnership
import RpcMt.Registration

/-! What requests are answered after a history of `svc_register` and `svc_unregister` calls, `l1_vec`
included. Each new callout takes an entry of `l1_vec`, which nothing gives back: as long as there is room
the list implements the map of the services registered, and the first callout after that is a fault. -/

namespace RpcMt

open Runs CalloutOwnership

variable {H : Type}

namespace Matching

/-! ### The services of a history -/

/-- What a call does to the services: a program and version keeps the handler it has. -/
def serve (m : Services H) : RegCall H → Services H
  | .register rq _ _ =>
      if (m (rq.prog, rq.vers)).isSome then m else Function.update m (rq.prog, rq.vers) (some rq.dispatch)
  | .unregister prog vers => Function.update m (prog, vers) none

/-- The handler most recently inserted, and not removed since, for every program and version. -/
def services (calls : List (RegCall H)) : Services H := calls.foldl serve fun _ => none

/-- The callouts that a call allocates: one for a program and version that has no handler. -/
def allocates (m : Services H) : RegCall H → Nat
  | .register rq _ _ => if (m (rq.prog, rq.vers)).isSome then 0 else 1
  | .unregister _ _ => 0

/-- The callouts that the calls allocate, one after the other. -/
def allocations (m : Services H) : List (RegCall H) → Nat
  | [] => 0
  | c :: calls => allocates m c + allocations (serve m c) calls

/-- The list holds a program and version at most once, and every request is answered from the services. -/
def Answers (tab : SvcTable H) (m : Services H) : Prop :=
  (∃ l, tab.Lists l ∧ (keys l).Nodup) ∧
    ∀ prog vers, ∃ a, tab.requestMatchProgVersion prog vers = .ok a ∧ IsAnswer m prog vers a

/-- One of the calls. -/
def step [DecidableEq H] (s : Res (World H)) : RegCall H → Option (Res (World H))
  | .register rq fresh granted => CalloutOwnership.step s (.register rq fresh granted)
  | .unregister prog vers => CalloutOwnership.step s (.unregister prog vers)

/-! ### What holds along a history without a fault -/

/-- The list implements the services `m`, and `n` callouts have been allocated. -/
structure Serves (w : World H) (m : Services H) (n : Nat) (l : List (Listed H)) (recorded : List CalloutId) : Prop where
  holding : Holding w l recorded
  keys : (keys l).Nodup
  services : serviceOf l = m
  length : recorded.length = n

section Steps

variable {w : World H} {m : Services H} {n : Nat} {l : List (Listed H)} {recorded : List CalloutId}

theorem serves_start (binder : Binder) : Serves (World.start binder : World H) (fun _ => none) 0 [] [] :=
  ⟨⟨SvcTable.owns_empty, .null⟩, List.nodup_nil, rfl, rfl⟩

theorem Serves.answers (h : Serves w m n l recorded) : Answers w.tab m := by
  have hlists := h.holding.owns.lists
  refine ⟨⟨l, hlists, h.keys⟩, fun prog vers => ⟨_, SvcTable.requestMatchProgVersion_eq hlists, ?_⟩⟩
  have hans := isAnswer_matchProgVersion l prog vers
  rwa [h.services] at hans

theorem isSome_service (h : Serves w m n l recorded) (prog vers : RpcUlong) :
    (m (prog, vers)).isSome = true ↔ l.find? (hasKey prog vers) ≠ none := by
  rw [← h.services, ← Option.isSome_iff_ne_none]
  simp [serviceOf]

theorem serviceOf_listed (l : List (Listed H)) (prog vers : RpcUlong) :
    (serviceOf l (prog, vers)).isSome = true ↔ (prog, vers) ∈ keys l := by
  rw [← Registrations.find_isSome_iff]
  simp [serviceOf]

variable [DecidableEq H]

theorem serviceOf_registerList (l : List (Listed H)) (rq : SvcTable.Request H) (fresh : CalloutId)
    (granted : Bool) :
    serviceOf (registerList l rq fresh granted).2 = serve (serviceOf l) (.register rq fresh granted) := by
  obtain ⟨l', hl', hlist⟩ := Registrations.registerList_cases l rq fresh granted
  have hlist' : serviceOf (registerList l rq fresh granted).2 = serviceOf l' := by
    rcases hlist with heq | ⟨y, _, _, _, heq, _⟩
    · rw [heq]
    · rw [heq, serviceOf_mark]
  rw [hlist', serve]
  rcases hl' with ⟨rfl, hin⟩ | ⟨rfl, hno⟩
  · rw [if_pos ((serviceOf_listed l' _ _).mpr hin)]
  · rw [if_neg (mt (serviceOf_listed l _ _).mp hno), serviceOf_cons]
    rfl

/-- A call with room in `l1_vec` for the callout it may allocate. -/
theorem Serves.step_room (h : Serves w m n l recorded) {c : RegCall H} (hroom : n + allocates m c ≤ 102)
    {t : Res (World H)} (hst : step (.ok w) c = some t) :
    ∃ w' l' recorded', t = .ok w' ∧ Serves w' (serve m c) (n + allocates m c) l' recorded' := by
  cases c with
  | register rq fresh granted =>
      obtain ⟨hfresh, rfl⟩ := step_register hst
      have hkeys := Registrations.keys_registerList h.keys rq fresh granted
      have hserves := (serviceOf_registerList l rq fresh granted).trans (congrArg (serve · _) h.services)
      by_cases hnew : l.find? (hasKey rq.prog rq.vers) = none
      · have hone : allocates m (.register rq fresh granted) = 1 :=
          if_neg fun hsome => (isSome_service h rq.prog rq.vers).mp hsome hnew
        rw [hone] at hroom ⊢
        obtain ⟨w', hrun, _, h'⟩ := h.holding.register_new hfresh granted hnew (by rw [h.length]; omega)
        refine ⟨w', _, _, hrun, h', hkeys, hserves, ?_⟩
        rw [List.length_append, h.length]
        rfl
      · have hzero : allocates m (.register rq fresh granted) = 0 :=
          if_pos ((isSome_service h rq.prog rq.vers).mpr hnew)
        obtain ⟨w', hrun, _, h'⟩ := h.holding.register_again hfresh granted hnew
        refine ⟨w', _, _, hrun, h', hkeys, hserves, ?_⟩
        rw [hzero]
        exact h.length
  | unregister prog vers =>
      obtain rfl := Option.some.inj hst
      obtain ⟨w', hrun, h'⟩ := h.holding.unregister prog vers
      refine ⟨w', _, _, hrun, h', Registrations.keys_unregisterList h.keys prog vers, ?_, h.length⟩
      exact (serviceOf_unregister h.keys prog vers).trans (congrArg (serve · (.unregister prog vers)) h.services)

/-- The callout for which there is no entry any more. -/
theorem Serves.step_full (h : Serves w m n l recorded) {c : RegCall H} (hn : n ≤ 102)
    (hfull : ¬n + allocates m c ≤ 102) {t : Res (World H)} (hst : step (.ok w) c = some t) : ∃ e, t = .error e := by
  cases c with
  | register rq fresh granted =>
      obtain ⟨_, rfl⟩ := step_register hst
      have hnew : l.find? (hasKey rq.prog rq.vers) = none := by
        by_contra hlisted
        have hzero : allocates m (.register rq fresh granted) = 0 :=
          if_pos ((isSome_service h rq.prog rq.vers).mpr hlisted)
        exact hfull (by rw [hzero]; exact hn)
      have hone : allocates m (.register rq fresh granted) = 1 :=
        if_neg fun hsome => (isSome_service h rq.prog rq.vers).mp hsome hnew
      have hlen : ¬ recorded.length < 102 := by
        rw [h.length]
        omega
      exact h.holding.register_full fresh granted hnew hlen
  | unregister prog vers => exact absurd hn hfull

theorem exec_error {e : Fault} {calls : List (RegCall H)} {s : Res (World H)}
    (h : exec step anyStep (.error e) calls = some s) : s = .error e := by
  induction calls with
  | nil =>
      cases h
      rfl
  | cons c calls ih =>
      obtain ⟨_, u, hu, hrest⟩ := exec_cons step anyStep h
      have hstay : u = .error e := by
        cases c <;> exact (Option.some.inj hu).symm
      subst hstay
      exact ih hrest

/-- A history goes on without a fault until it has allocated more than there is room for. -/
theorem Serves.run (h : Serves w m n l recorded) (hn : n ≤ 102) {calls : List (RegCall H)} {s : Res (World H)}
    (hrun : exec step anyStep (.ok w) calls = some s) :
    if n + allocations m calls ≤ 102 then
      ∃ w' l' recorded', s = .ok w' ∧ Serves w' (calls.foldl serve m) (n + allocations m calls) l' recorded'
    else ∃ e, s = .error e := by
  induction calls generalizing w m n l recorded with
  | nil =>
      cases hrun
      rw [allocations, Nat.add_zero, if_pos hn]
      exact ⟨w, l, recorded, rfl, h⟩
  | cons c calls ih =>
      obtain ⟨_, t, hst, hrest⟩ := exec_cons step anyStep hrun
      rw [allocations, ← Nat.add_assoc]
      by_cases hroom : n + allocates m c ≤ 102
      · obtain ⟨w', l', recorded', rfl, h'⟩ := h.step_room hroom hst
        exact ih h' hroom hrest
      · obtain ⟨e, rfl⟩ := h.step_full hn hroom hst
        rw [if_neg (by omega)]
        exact ⟨e, exec_error hrest⟩

end Steps

/-! ### Histories -/

theorem svcIsMapped_of_unregister {tab tab' : SvcTable H} {binder binder' : Binder} {prog vers : RpcUlong}
    (h : tab.svcUnregister binder prog vers = .ok (tab', binder')) : ∃ b, tab.svcIsMapped prog vers = .ok b := by
  obtain ⟨⟨prev, found⟩, hfind, h⟩ := bind_ok h
  unfold SvcTable.svcIsMapped
  rw [hfind]
  cases found with
  | none => exact ⟨false, rfl⟩
  | some p =>
      obtain ⟨c, hc, _⟩ := bind_ok h
      show ∃ b, (tab.callout p >>= _ : Res Bool) = .ok b
      rw [hc]
      exact ⟨_, rfl⟩

variable [DecidableEq H]

/-- As long as nothing faults, `svc_register` with `l1_vec` does to the list and the binder what it does
without. -/
theorem svcRegister_agrees {w w' : World H} {rq : SvcTable.Request H} {fresh : CalloutId} {granted : Bool}
    (h : w.svcRegister rq fresh granted = .ok w') :
    ∃ ok, w.tab.svcRegister w.binder rq fresh granted = .ok (ok, w'.tab, w'.binder) := by
  obtain ⟨⟨prev, found⟩, _, h⟩ := bind_ok h
  have hrest : ∀ l1, (w.tab.svcRegister w.binder rq fresh granted >>= fun r =>
      pure ⟨r.2.1, r.2.2, l1⟩ : Res (World H)) = .ok w' →
      ∃ ok, w.tab.svcRegister w.binder rq fresh granted = .ok (ok, w'.tab, w'.binder) := by
    intro l1 h
    obtain ⟨⟨ok, tab, binder⟩, hrun, h⟩ := bind_ok h
    cases h
    exact ⟨ok, hrun⟩
  cases found with
  | some _ => exact hrest w.l1 h
  | none =>
      obtain ⟨l1, _, h⟩ := bind_ok h
      exact hrest l1 h

/-- A history without a fault is one of `Registrations`, where `l1_vec` is left out. -/
theorem registrations_agree {calls : List (RegCall H)} {w w' : World H} {s : Registrations H}
    (htab : s.tab = w.tab) (hbinder : s.binder = w.binder)
    (hrun : exec step anyStep (.ok w) calls = some (.ok w')) :
    ∃ t, exec Registrations.step anyStep s calls = some t ∧ t.tab = w'.tab ∧ t.binder = w'.binder := by
  induction calls generalizing w s with
  | nil =>
      cases hrun
      exact ⟨s, rfl, htab, hbinder⟩
  | cons c calls ih =>
      obtain ⟨_, u, hst, hrest⟩ := exec_cons step anyStep hrun
      cases u with
      | error e => cases exec_error hrest
      | ok v =>
          have hone : ∃ t, Registrations.step s c = some t ∧ t.tab = v.tab ∧ t.binder = v.binder := by
            cases c with
            | register rq fresh granted =>
                obtain ⟨hfresh, hreg⟩ := step_register hst
                obtain ⟨ok, hsame⟩ := svcRegister_agrees hreg
                rw [← htab, ← hbinder] at hsame
                rw [← htab] at hfresh
                exact ⟨_, by rw [Registrations.step, hfresh, hsame]; rfl, rfl, rfl⟩
            | unregister prog vers =>
                obtain ⟨⟨tab, binder⟩, hun, hpure⟩ := bind_ok (Option.some.inj hst)
                cases hpure
                rw [← htab, ← hbinder] at hun
                obtain ⟨b, hb⟩ := svcIsMapped_of_unregister hun
                exact ⟨_, by rw [Registrations.step, hb, hun], rfl, rfl⟩
          obtain ⟨t, ht, htab', hbinder'⟩ := hone
          obtain ⟨t', ht', hend⟩ := ih htab' hbinder' hrest
          refine ⟨t', ?_, hend⟩
          have hany : anyStep s c := trivial
          rw [exec, if_pos hany, ht]
          exact ht'

/-- After a sequence of calls the list holds a program and version at most once, and every request is
answered from the services, if and only if the calls have allocated no more callouts than `l1_vec` has
entries for. -/
theorem requests_answered_iff (binder : Binder) (calls : List (RegCall H)) (s : Res (World H))
    (hrun : exec step anyStep (.ok (.start binder)) calls = some s) :
    (∃ w, s = .ok w ∧ Answers w.tab (services calls)) ↔ allocations (fun _ => none) calls ≤ 102 := by
  have hcases := (serves_start binder).run (Nat.zero_le _) hrun
  rw [Nat.zero_add] at hcases
  split at hcases
  · rename_i hroom
    obtain ⟨w, l, recorded, rfl, h⟩ := hcases
    exact iff_of_true ⟨w, rfl, h.answers⟩ hroom
  · rename_i hfull
    obtain ⟨e, rfl⟩ := hcases
    refine iff_of_false ?_ hfull
    rintro ⟨w, hw, _⟩
    cases hw

/-- Two services are registered, one is removed, and a third version is asked for. -/
theorem requests_answered_mismatch :
    ∃ w : World Nat, exec step anyStep (.ok (.start []))
        [.register ⟨7, 1, 40, 0, 0⟩ 1 true, .register ⟨7, 3, 41, 6, 80⟩ 2 true, .unregister 7 1] = some (.ok w) ∧
      Answers w.tab (services [.register ⟨7, 1, 40, 0, 0⟩ 1 true, .register ⟨7, 3, 41, 6, 80⟩ 2 true,
        .unregister 7 1]) := by
  have hsome : (exec step anyStep (.ok (World.start [])) [.register ⟨7, 1, (40 : Nat), 0, 0⟩ 1 true,
      .register ⟨7, 3, 41, 6, 80⟩ 2 true, .unregister 7 1]).isSome = true := by decide +kernel
  obtain ⟨s, hs⟩ := Option.isSome_iff_exists.mp hsome
  have hroom : allocations (fun _ => none) [.register ⟨7, 1, (40 : Nat), 0, 0⟩ 1 true,
      .register ⟨7, 3, 41, 6, 80⟩ 2 true, .unregister 7 1] ≤ 102 := by decide
  obtain ⟨w, rfl, hanswers⟩ := (requests_answered_iff [] _ s hs).mpr hroom
  exact ⟨w, hs, hanswers⟩

/-- Registrations of `n` programs, each with a callout of its own. -/
def programs (n : Nat) : List (RegCall Nat) :=
  (List.range n).map fun i => .register ⟨Fin.ofNat sizeRange i, 1, 40, 0, 0⟩ i true

/-- One program more than `l1_vec` has entries for. -/
theorem requests_answered_counterexample :
    ¬ ∀ (binder : Binder) (calls : List (RegCall Nat)) (s : Res (World Nat)),
      exec step anyStep (.ok (.start binder)) calls = some s → ∃ w, s = .ok w ∧ Answers w.tab (services calls) := by
  have hfault : (exec step anyStep (.ok (World.start [])) (programs 103)).map (fun s => s.toBool) = some false := by
    decide +kernel
  intro hall
  obtain ⟨s, hs, hbad⟩ := Option.map_eq_some_iff.mp hfault
  obtain ⟨w, rfl, _⟩ := hall [] _ s hs
  cases hbad

end Matching

end RpcMt
