import RpcMt.ExactIds
import RpcMt.Gc

/-! Marks and transports over whole histories. A mark is kept under an id, and an id outlives its
transport: a transport that a service destroys itself leaves its mark behind, and whatever is
registered under that id next is reaped in its place. The reaper takes marked transports only, as long
as no transport is registered under an id that is still marked. -/

open RpcMt.Runs

namespace RpcMt.Registry

variable {π : Type}

/-- The registry, and which transports have been passed to `xprt_gc_mark` since they were registered. -/
structure GcState (π : Type) where
  reg : Registry ExactSet π
  passed : Addr → Bool

/-- A registration or a direct `SVC_DESTROY`, a call of `xprt_gc_mark`, or a call of
`xprt_gc_reap_all`. -/
inductive GcOp (π : Type) where
  | reg (op : RegOp π)
  | mark (a : Addr)
  | reapAll

namespace GcState

def create (dtablesize : Nat) : GcState π := ⟨createXports dtablesize, fun _ => false⟩

/-- A transport that has just been registered has not been passed to anything. -/
def afterReg (passed : Addr → Bool) : RegOp π → Addr → Bool
  | .register a _ _ _ _ _ => Function.update passed a false
  | .clone _ a _ => Function.update passed a false
  | .unregister _ => passed

def step (s : GcState π) : GcOp π → Option (GcState π)
  | .reg op => (regStep s.reg op).map fun r => ⟨r, afterReg s.passed op⟩
  | .mark a => (s.reg.xprtGcMark a).toOption.map fun r => ⟨r, Function.update s.passed a true⟩
  | .reapAll => s.reg.xprtGcReapAll.toOption.map fun r => ⟨r, s.passed⟩

/-- A transport that a turn of `xprt_gc_reap_all` destroys, whether or not the loop gets to its end,
has been passed to `xprt_gc_mark` since it was registered. -/
def ReapsMarked (s : GcState π) : Prop :=
  ∀ turns t, reapFrom turns 0 s.reg = .ok t → ∀ a, (s.reg.heap a).isSome = true → t.heap a = none →
    s.passed a = true

/-- `xprtgc_mark_count` counts the ids in `xprtgc_idset`, also after every turn of the reaper. -/
def CountsMarks (s : GcState π) : Prop :=
  ∀ turns t, reapFrom turns 0 s.reg = .ok t → t.xprtgcMarkCount = t.xprtgcIdset.ids.card

/-- The id that the next registration will be given is not marked. -/
def NextUnmarked (r : Registry ExactSet π) : Prop :=
  ∀ id, r.xportsIdset.Vacant id → id ∉ r.xprtgcIdset.ids

/-- No transport is registered under an id that is still marked. -/
def MarkClean (s : GcState π) : GcOp π → Prop
  | .reg (.register ..) => NextUnmarked s.reg
  | .reg (.clone ..) => NextUnmarked s.reg
  | _ => True

/-! ### The invariant -/

/-- The marks are counted. -/
structure Counted (r : Registry ExactSet π) : Prop extends Tables r where
  count : r.xprtgcMarkCount = r.xprtgcIdset.ids.card

/-- What the table holds under a marked id has been passed to `xprt_gc_mark`. -/
def Marked (r : Registry ExactSet π) (passed : Addr → Bool) : Prop :=
  ∀ id a, id ∈ r.xprtgcIdset.ids → r.xports id = .ref a → passed a = true

variable {r t : Registry ExactSet π} {passed : Addr → Bool} {a : Addr} {x : Svcxprt π} {id : Nat}

theorem counted_register (h : Counted r) (ha : r.heap a = none) (hid : x.mtxpId = xprtIdInvalid)
    (hreg : (r.store a x).xprtRegister a = .ok t) : Counted t := by
  obtain ⟨id, r₁, halloc, hent⟩ := xprtRegister_ok (Function.update_self ..) hid hreg
  obtain ⟨maxid, idset, _, _, _, rfl⟩ := xprtIdAlloc_ok halloc
  refine ⟨h.toTables.register ha hid hreg, ?_⟩
  rw [hent.marks, hent.gcset]
  exact h.count

theorem marked_register (h : Tables r) (hm : Marked r passed) (ha : r.heap a = none)
    (hid : x.mtxpId = xprtIdInvalid) (hclean : NextUnmarked r)
    (hreg : (r.store a x).xprtRegister a = .ok t) : Marked t (Function.update passed a false) := by
  obtain ⟨id, r₁, halloc, hent⟩ := xprtRegister_ok (Function.update_self ..) hid hreg
  obtain ⟨maxid, idset, hchoose', _, _, rfl⟩ := xprtIdAlloc_ok halloc
  obtain ⟨id', maxid', hchoose, hvacant, _⟩ := h.choose
  cases hchoose.symm.trans hchoose'
  intro k c hk hc
  rw [hent.gcset] at hk
  have hne : k ≠ id := by
    rintro rfl
    exact hclean k hvacant hk
  rw [hent.xports, Function.update_of_ne hne] at hc
  have hca : c ≠ a := by
    rintro rfl
    obtain ⟨y, hy, _⟩ := h.entry k c hc
    rw [ha] at hy
    cases hy
  rw [Function.update_of_ne hca]
  exact hm k c hk hc

theorem counted_destroyed (h : Counted r) (hx : r.heap a = some x) (hd : Destroyed r t a x) : Counted t := by
  refine ⟨h.toTables.destroyed hx hd, ?_⟩
  rw [hd.marks, hd.gcset]
  exact h.count

theorem marked_destroyed (hm : Marked r passed) (hd : Destroyed r t a x) : Marked t passed := by
  intro k c hk hc
  rw [hd.gcset] at hk
  rw [hd.xports] at hc
  by_cases hkid : k = x.mtxpId
  · rw [hkid, Function.update_self] at hc
    cases hc
  · rw [Function.update_of_ne hkid] at hc
    exact hm k c hk hc

theorem mark_ok (hx : r.heap a = some x) (h : r.xprtGcMark a = .ok t) :
    ∃ idset, idset.ids = insert x.mtxpId r.xprtgcIdset.ids ∧ t = { r with
      xprtgcIdset := idset
      xprtgcMarkCount := if x.mtxpId ∈ r.xprtgcIdset.ids then r.xprtgcMarkCount
        else r.xprtgcMarkCount + 1 } := by
  obtain ⟨y, hy, h⟩ := bind_ok h
  cases hx.symm.trans (deref_ok hy)
  obtain ⟨b, hb, h⟩ := bind_ok h
  obtain ⟨_, rfl⟩ := ExactSet.checked_ok hb
  by_cases hid : x.mtxpId ∈ r.xprtgcIdset.ids
  · rw [decide_eq_true hid] at h
    cases h
    refine ⟨r.xprtgcIdset, (Finset.insert_eq_of_mem hid).symm, ?_⟩
    rw [if_pos hid]
  · rw [decide_eq_false hid] at h
    obtain ⟨idset, hset, hpure⟩ := bind_ok h
    cases hpure
    obtain ⟨_, rfl⟩ := ExactSet.checked_ok hset
    refine ⟨{ r.xprtgcIdset with ids := insert x.mtxpId r.xprtgcIdset.ids }, rfl, ?_⟩
    rw [if_neg hid]

/-- A turn of the reaper destroys at most what the table holds under a marked id. -/
theorem turn (h : Counted r) (hturn : r.xprtGcReapTurn id = .ok (some t)) :
    Counted t ∧ (∀ passed, Marked r passed → Marked t passed) ∧
      ∀ b, (r.heap b).isSome = true → t.heap b = none →
        ∃ k, k ∈ r.xprtgcIdset.ids ∧ r.xports k = .ref b := by
  have hsame : Counted r ∧ (∀ passed, Marked r passed → Marked r passed) ∧
      ∀ b, (r.heap b).isSome = true → r.heap b = none →
        ∃ k, k ∈ r.xprtgcIdset.ids ∧ r.xports k = .ref b := by
    refine ⟨h, fun _ hm => hm, fun b hb hnone => ?_⟩
    rw [hnone] at hb
    cases hb
  rcases xprtGcReapTurn_cases hturn with rfl | ⟨hget, hone⟩
  · exact hsame
  · have hid : id ∈ r.xprtgcIdset.ids := by
      have hdec := (ExactSet.checked_ok hget).2
      exact of_decide_eq_true hdec.symm
    rcases xprtGcReapOne_cases hone with ⟨_, rfl⟩ | ⟨a, x, u, idset, hat, hx, hu, hclr, rfl⟩
    · exact hsame
    · obtain ⟨_, rfl⟩ := ExactSet.checked_ok hclr
      have hcount : ∀ v : Registry ExactSet π, Counted v → v.xprtgcIdset = r.xprtgcIdset →
          v.xprtgcMarkCount - 1 = (v.xprtgcIdset.ids.erase id).card := by
        intro v hv hset
        rw [Finset.card_erase_of_mem (by rw [hset]; exact hid), hv.count]
      rcases hu with rfl | ⟨v, hv, rfl⟩
      · refine ⟨⟨⟨h.size_le, h.sz, h.maxid, h.held, h.entry, h.listed, h.le_maxid⟩, hcount u h rfl⟩, ?_, ?_⟩
        · intro passed hm k c hk hc
          exact hm k c (Finset.mem_of_mem_erase hk) hc
        · exact hsame.2.2
      · obtain ⟨x', hx', hd⟩ := svcDestroy_ok hv
        cases hx.symm.trans hx'
        obtain ⟨y, hy, hyid⟩ := h.entry id a hat
        cases hx.symm.trans hy
        have hcv := counted_destroyed h hx hd
        -- `unregister_id` has already made the slot bad.
        have hxports : Function.update v.xports id .bad = v.xports := by
          rw [hd.xports, hyid, Function.update_idem]
        refine ⟨⟨⟨hcv.size_le, hcv.sz, hcv.maxid, ?_, ?_, ?_, hcv.le_maxid⟩, hcount v hcv hd.gcset⟩, ?_, ?_⟩
        · rw [hxports]
          exact hcv.held
        · rw [hxports]
          exact hcv.entry
        · rw [hxports]
          exact hcv.listed
        · intro passed hm k c hk hc
          refine marked_destroyed hm hd k c (Finset.mem_of_mem_erase hk) ?_
          rw [← hxports]
          exact hc
        · intro b hb hnone
          by_cases hba : b = a
          · exact ⟨id, hid, hba ▸ hat⟩
          · have hcore := hd.core hba
            rw [show v.heap b = none from hnone] at hcore
            rw [Option.map_eq_none_iff.mp hcore.symm] at hb
            cases hb

theorem loop (h : Counted r) {turns : Nat} (hloop : reapFrom turns id r = .ok t) :
    Counted t ∧ ∀ passed, Marked r passed → Marked t passed ∧
      ∀ b, (r.heap b).isSome = true → t.heap b = none → passed b = true := by
  induction turns generalizing id r with
  | zero =>
      cases hloop
      refine ⟨h, fun passed hm => ⟨hm, fun b hb hnone => ?_⟩⟩
      rw [hnone] at hb
      cases hb
  | succ turns ih =>
      obtain ⟨o, hturn, hloop⟩ := bind_ok hloop
      cases o with
      | none =>
          cases hloop
          refine ⟨h, fun passed hm => ⟨hm, fun b hb hnone => ?_⟩⟩
          rw [hnone] at hb
          cases hb
      | some u =>
          obtain ⟨hu, hmarked, htaken⟩ := turn h hturn
          obtain ⟨ht, hrest⟩ := ih hu hloop
          refine ⟨ht, fun passed hm => ⟨(hrest passed (hmarked passed hm)).1, fun b hb hnone => ?_⟩⟩
          -- What is gone at the end went in this turn or in a later one.
          cases hub : u.heap b with
          | none =>
              obtain ⟨k, hk, hkb⟩ := htaken b hb hub
              exact hm k b hk hkb
          | some y => exact (hrest passed (hmarked passed hm)).2 b (by rw [hub]; rfl) hnone

/-! ### Every history -/

theorem regStep_ok {op : RegOp π} (h : regStep r op = some t) :
    op.possible r = true ∧ regOp r op = .ok t := by
  unfold regStep at h
  split at h
  · rename_i hposs
    exact ⟨hposs, toOption_ok h⟩
  · cases h

theorem step_counted {s s' : GcState π} {op : GcOp π} (h : Counted s.reg) (hst : step s op = some s') :
    Counted s'.reg ∧ (MarkClean s op → Marked s.reg s.passed → Marked s'.reg s'.passed) := by
  cases op with
  | reg op =>
      obtain ⟨t, ht, rfl⟩ := Option.map_eq_some_iff.mp hst
      obtain ⟨hposs, ht⟩ := regStep_ok ht
      cases op with
      | register a sock port clone priv stat =>
          have ha := Option.isNone_iff_eq_none.mp hposs
          exact ⟨counted_register h ha rfl ht, fun hok hm => marked_register h.toTables hm ha rfl hok ht⟩
      | clone p a priv =>
          have ha := Option.isNone_iff_eq_none.mp (Bool.and_eq_true_iff.mp hposs).1
          obtain ⟨px, _, ht⟩ := bind_ok ht
          exact ⟨counted_register h ha rfl ht, fun hok hm => marked_register h.toTables hm ha rfl hok ht⟩
      | unregister a =>
          obtain ⟨x, hx, hd⟩ := svcDestroy_ok ht
          exact ⟨counted_destroyed h hx hd, fun _ hm => marked_destroyed hm hd⟩
  | mark a =>
      obtain ⟨t, ht, rfl⟩ := Option.map_eq_some_iff.mp hst
      have ht := toOption_ok ht
      obtain ⟨x, hx, _⟩ := bind_ok ht
      have hx := deref_ok hx
      obtain ⟨idset, hids, rfl⟩ := mark_ok hx ht
      refine ⟨⟨⟨h.size_le, h.sz, h.maxid, h.held, h.entry, h.listed, h.le_maxid⟩, ?_⟩, fun _ hm k c hk hc => ?_⟩
      · show (if x.mtxpId ∈ s.reg.xprtgcIdset.ids then _ else _) = idset.ids.card
        rw [hids]
        split
        · rename_i hmem
          rw [Finset.insert_eq_of_mem hmem, h.count]
        · rename_i hmem
          rw [Finset.card_insert_of_notMem hmem, h.count]
      · show Function.update s.passed a true c = true
        by_cases hca : c = a
        · rw [hca, Function.update_self]
        · rw [Function.update_of_ne hca]
          have hk : k ∈ insert x.mtxpId s.reg.xprtgcIdset.ids := hids ▸ hk
          rcases Finset.mem_insert.mp hk with rfl | hk
          · exact absurd (XprtPtr.ref.inj (hc.symm.trans (h.held a x hx))) hca
          · exact hm k c hk hc
  | reapAll =>
      obtain ⟨t, ht, rfl⟩ := Option.map_eq_some_iff.mp hst
      obtain ⟨hc, hm⟩ := loop h (toOption_ok ht)
      exact ⟨hc, fun _ hmarked => (hm s.passed hmarked).1⟩

theorem counted_create (dtablesize : Nat) : Counted (create dtablesize : GcState π).reg :=
  ⟨tables_createXports dtablesize, rfl⟩

/-- Whatever is called in whatever order, the counter is the number of marks. -/
theorem countsMarks {dtablesize : Nat} {s : GcState π} (h : Reached step anyStep (create dtablesize) s) :
    CountsMarks s := by
  have hinv : Counted s.reg := by
    refine h.invariant (fun s => Counted s.reg) (counted_create dtablesize) ?_
    intro u op t hu _ hst
    exact (step_counted hu hst).1
  intro turns t ht
  exact (loop hinv ht).1.count

/-- In every history in which no transport is registered under an id that is still marked, the reaper
destroys only what has been passed to `xprt_gc_mark` since its registration. -/
theorem reaps_marked {dtablesize : Nat} {s : GcState π} (h : Reached step MarkClean (create dtablesize) s) :
    ReapsMarked s ∧ CountsMarks s := by
  have hinv : Counted s.reg ∧ Marked s.reg s.passed := by
    refine h.invariant (fun s => Counted s.reg ∧ Marked s.reg s.passed) ⟨counted_create dtablesize, ?_⟩ ?_
    · intro id a hid
      exact absurd hid (Finset.notMem_empty id)
    · intro u op t hu hok hst
      obtain ⟨hc, hm⟩ := step_counted hu.1 hst
      exact ⟨hc, hm hok hu.2⟩
  refine ⟨fun turns t ht a ha hnone => ?_, countsMarks (h.mono fun _ _ _ => trivial)⟩
  exact ((loop hinv.1 ht).2 s.passed hinv.2).2 a ha hnone

/-- A connection is accepted, marked and reaped. -/
theorem reaps_marked_connection : ∃ s t : GcState Unit, Reached step MarkClean (create 8) s ∧
    step s .reapAll = some t ∧ (s.reg.heap 0).isSome = true ∧ t.reg.heap 0 = none ∧ s.passed 0 = true := by
  have hrun : (step (create 8 : GcState Unit) (.reg (acceptOp 0))).map (fun r =>
      (step r (.mark 0)).map fun s => ((s.reg.heap 0).isSome, (step s .reapAll).map fun t =>
        (t.reg.heap 0).isNone)) = some (some (true, some true)) := by
    decide +kernel
  obtain ⟨r, hr, heq⟩ := Option.map_eq_some_iff.mp hrun
  obtain ⟨s, hs, heq⟩ := Option.map_eq_some_iff.mp heq
  obtain ⟨hlive, heq⟩ := Prod.mk.inj heq
  obtain ⟨t, ht, hgone⟩ := Option.map_eq_some_iff.mp heq
  have hfirst : Reached step MarkClean (create 8) r := by
    refine .next .start ?_ hr
    exact fun id _ => Finset.notMem_empty id
  have hclean : MarkClean r (.mark 0) := trivial
  have hreached : Reached step MarkClean (create 8) s := .next hfirst hclean hs
  obtain ⟨t', ht', rfl⟩ := Option.map_eq_some_iff.mp ht
  have hnone := Option.isNone_iff_eq_none.mp hgone
  exact ⟨s, _, hreached, ht, hlive, hnone,
    (reaps_marked hreached).1 _ _ (toOption_ok ht') 0 hlive hnone⟩

/-- A transport is marked, the service destroys it itself, and the next transport gets its id: the
reaper destroys that one, which nobody has marked. -/
theorem reaps_unmarked_after_destroy : ∃ s : GcState Unit,
    Reached step anyStep (create 8) s ∧ ¬ReapsMarked s := by
  have hrun : ((exec step anyStep (create 8 : GcState Unit)
      [.reg (acceptOp 0), .mark 0, .reg (.unregister 0), .reg (acceptOp 1)]).map fun s =>
        ((s.reg.heap 1).isSome, s.passed 1, (reapFrom 1 0 s.reg).toOption.map fun t =>
          (t.heap 1).isNone)) = some (true, false, some true) := by
    decide +kernel
  obtain ⟨s, hs, heq⟩ := Option.map_eq_some_iff.mp hrun
  obtain ⟨hlive, heq⟩ := Prod.mk.inj heq
  obtain ⟨hpassed, heq⟩ := Prod.mk.inj heq
  obtain ⟨t, ht, hgone⟩ := Option.map_eq_some_iff.mp heq
  refine ⟨s, reached_of_exec _ _ .start _ hs, fun hreaps => ?_⟩
  have := hreaps 1 t (toOption_ok ht) 1 hlive (Option.isNone_iff_eq_none.mp hgone)
  rw [hpassed] at this
  cases this

end GcState

end RpcMt.Registry
