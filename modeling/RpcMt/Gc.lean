import RpcMt.Registry

/-! Garbage collection of transports in `svc.c`: `xprt_gc_mark` sets the bit of a transport's id, and
`xprt_gc_reap_one` destroys what the table holds under a marked id. Both run under `xprtgc_lock`. The
marks are a bit vector of their own, so a mark is also one on every id that shares the bit. -/

namespace RpcMt.Registry

variable {β π : Type} [IdSet β]

/-- `xprt_gc_mark`. -/
def xprtGcMark (s : Registry β π) (a : Addr) : Res (Registry β π) := do
  let x ← s.deref a
  if ← IdSet.getBit s.xprtgcIdset x.mtxpId then pure s
  else do
    let idset ← IdSet.setBit s.xprtgcIdset x.mtxpId
    pure { s with xprtgcIdset := idset, xprtgcMarkCount := s.xprtgcMarkCount + 1 }

/-- The destruction in `xprt_gc_reap_one`: of a clone, or of what nobody has cloned. -/
def reapXprt (s : Registry β π) (id : Nat) (a : Addr) (x : Svcxprt π) : Res (Registry β π) :=
  if x.mtxpParent ≠ noParent ∨ x.mtxpRefcnt = 0 then do
    let s' ← s.svcDestroy a
    pure { s' with xports := Function.update s'.xports id .bad }
  else .ok s

/-- `xprt_gc_reap_one` on an id whose bit is set. -/
def xprtGcReapOne (s : Registry β π) (id : Nat) : Res (Registry β π) := do
  let entry ← s.xportsAt id
  if entry = .bad then pure s
  else do
    let (a, x) ← s.derefPtr entry
    let s' ← s.reapXprt id a x
    let idset ← IdSet.clrBit s'.xprtgcIdset id
    pure { s' with xprtgcIdset := idset, xprtgcMarkCount := s'.xprtgcMarkCount - 1 }

/-- One turn of the loop of `xprt_gc_reap_all`; `none` where it ends. -/
def xprtGcReapTurn (s : Registry β π) (id : Nat) : Res (Option (Registry β π)) :=
  if id ≤ s.xportsMaxid ∧ s.xprtgcMarkCount ≠ 0 then do
    if ← IdSet.getBit s.xprtgcIdset id then do
      let s' ← s.xprtGcReapOne id
      pure (some s')
    else pure (some s)
  else .ok none

/-- The loop of `xprt_gc_reap_all` from `id` on, with the turns that are left. -/
def reapFrom : Nat → Nat → Registry β π → Res (Registry β π)
  | 0, _, s => .ok s
  | left + 1, id, s => do
      match ← s.xprtGcReapTurn id with
      | some s' => reapFrom left (id + 1) s'
      | none => pure s

def xprtGcReapAll (s : Registry β π) : Res (Registry β π) := reapFrom (s.xportsMaxid + 1) 0 s

/-- All that one call of `xprt_gc_reap_one` can do: nothing, where the slot is vacant; or clear the mark,
with or without destroying the transport in the slot. -/
theorem xprtGcReapOne_cases {s t : Registry β π} {id : Nat} (h : s.xprtGcReapOne id = .ok t) :
    (s.xports id = .bad ∧ t = s) ∨ ∃ a x u idset, s.xports id = .ref a ∧ s.heap a = some x ∧
      (u = s ∨ ∃ v, s.svcDestroy a = .ok v ∧ u = { v with xports := Function.update v.xports id .bad }) ∧
      IdSet.clrBit u.xprtgcIdset id = .ok idset ∧
      t = { u with xprtgcIdset := idset, xprtgcMarkCount := u.xprtgcMarkCount - 1 } := by
  obtain ⟨entry, hentry, h⟩ := bind_ok h
  obtain ⟨_, hat⟩ := xportsAt_ok hentry
  split at h
  · rename_i hbad
    cases h
    exact Or.inl ⟨hat.trans hbad, rfl⟩
  · obtain ⟨⟨a, x⟩, hptr, h⟩ := bind_ok h
    obtain ⟨href, hx⟩ := derefPtr_ok hptr
    obtain ⟨u, hreap, h⟩ := bind_ok h
    obtain ⟨idset, hclr, h⟩ := bind_ok h
    cases h
    refine Or.inr ⟨a, x, u, idset, hat.trans href, hx, ?_, hclr, rfl⟩
    unfold reapXprt at hreap
    split at hreap
    · obtain ⟨v, hv, hpure⟩ := bind_ok hreap
      cases hpure
      exact Or.inr ⟨v, hv, rfl⟩
    · cases hreap
      exact Or.inl rfl

theorem xprtGcReapTurn_cases {s t : Registry β π} {id : Nat} (h : s.xprtGcReapTurn id = .ok (some t)) :
    t = s ∨ (IdSet.getBit s.xprtgcIdset id = .ok true ∧ s.xprtGcReapOne id = .ok t) := by
  unfold xprtGcReapTurn at h
  split at h
  · obtain ⟨b, hb, h⟩ := bind_ok h
    cases b with
    | false =>
        cases h
        exact Or.inl rfl
    | true =>
        obtain ⟨t', hone, hpure⟩ := bind_ok h
        cases hpure
        exact Or.inr ⟨hb, hone⟩
  · cases h

/-- The table holds live transports, each under its own id. -/
def Entries (s : Registry Bitvec π) : Prop :=
  ∀ id a, s.xports id = .ref a → ∃ x, s.heap a = some x ∧ x.mtxpId = id

/-- The same at `a` before and after, up to a reference count. -/
def Kept (s t : Registry Bitvec π) (a : Addr) : Prop :=
  (t.heap a).map Svcxprt.core = (s.heap a).map Svcxprt.core

variable {s t : Registry Bitvec π} {a : Addr} {x x' : Svcxprt π} {id : Nat}

theorem Kept.after (h : Kept s t a) (hx : s.heap a = some x) :
    ∃ x', t.heap a = some x' ∧ x.core = x'.core := Svcxprt.exists_of_map_core h.symm hx

theorem Kept.before (h : Kept s t a) (hx : t.heap a = some x') :
    ∃ x, s.heap a = some x ∧ x'.core = x.core := Svcxprt.exists_of_map_core h hx

theorem xprtGcMark_ok (hx : s.heap a = some x) (h : s.xprtGcMark a = .ok t) :
    t.heap = s.heap ∧ t.xports = s.xports ∧
      ∀ j, t.xprtgcIdset.bit j = (decide (Bitvec.SameBit x.mtxpId j) || s.xprtgcIdset.bit j) := by
  obtain ⟨y, hy, h⟩ := bind_ok h
  cases hx.symm.trans (deref_ok hy)
  obtain ⟨b, hb, h⟩ := bind_ok h
  obtain ⟨_, hbit⟩ := Bitvec.get_ok hb
  cases b with
  | true =>
      cases h
      refine ⟨rfl, rfl, fun j => ?_⟩
      by_cases hj : Bitvec.SameBit x.mtxpId j
      · rw [decide_eq_true hj, Bool.true_or, ← Bitvec.bit_congr _ hj, hbit]
      · rw [decide_eq_false hj, Bool.false_or]
  | false =>
      obtain ⟨idset, hset, hpure⟩ := bind_ok h
      cases hpure
      exact ⟨rfl, rfl, (Bitvec.set_ok hset).2.2.2⟩

theorem entries_store (h : Entries s) (hx : s.heap a = some x) (hid : x'.mtxpId = x.mtxpId) :
    Entries (s.store a x') := by
  intro i b hb
  obtain ⟨y, hy, hyid⟩ := h i b hb
  by_cases hba : b = a
  · subst hba
    cases hx.symm.trans hy
    exact ⟨x', Function.update_self .., hid.trans hyid⟩
  · exact ⟨y, (Function.update_of_ne hba _ _).trans hy, hyid⟩

/-- A registration: the new transport under an id of its own, everything else kept. -/
structure Registered (s t : Registry Bitvec π) (a : Addr) (x : Svcxprt π) (id : Nat) : Prop where
  entries : Entries t
  self : ∃ y, t.heap a = some y ∧ { x with mtxpId := id }.core = y.core
  kept : ∀ b, b ≠ a → Kept s t b
  gcset : t.xprtgcIdset = s.xprtgcIdset

theorem xprtRegister_registered (h : Entries s) (ha : s.heap a = none) (hid : x.mtxpId = xprtIdInvalid)
    (hreg : (s.store a x).xprtRegister a = .ok t) :
    ∃ id maxid, s.xprtIdChoose = .ok (id, maxid) ∧ Registered s t a x id := by
  obtain ⟨id, s₁, halloc, hent⟩ := xprtRegister_ok (Function.update_self ..) hid hreg
  obtain ⟨maxid, idset, hchoose, _, _, rfl⟩ := xprtIdAlloc_ok halloc
  change s.xprtIdChoose = .ok (id, maxid) at hchoose
  have hheap := fun b => hent.core_registered rfl b
  have hkept : ∀ b, b ≠ a → Kept s t b := by
    intro b hb
    calc (t.heap b).map Svcxprt.core
      _ = (Function.update s.heap a (some { x with mtxpId := id }) b).map Svcxprt.core := hheap b
      _ = (s.heap b).map Svcxprt.core := by rw [Function.update_of_ne hb]
  obtain ⟨y, hy, hcore⟩ := Svcxprt.exists_of_map_core (hheap a).symm (Function.update_self ..)
  exact ⟨id, maxid, hchoose, entries_registered h ha hent.xports hheap, ⟨y, hy, hcore⟩, hkept, hent.gcset⟩

theorem entries_destroyed (h : Entries s) (hx : s.heap a = some x) (hd : Destroyed s t a x) :
    Entries t := hd.entries h hx

/-- What a turn of the reaper leaves: it clears bits only, and destroys at most the transport found
under a marked id. -/
structure Reaped (s t : Registry Bitvec π) (id : Nat) : Prop where
  entries : Entries t
  bits : ∀ j, t.xprtgcIdset.bit j = true → s.xprtgcIdset.bit j = true
  kept : ∀ b, Kept s t b ∨
    (t.heap b = none ∧ s.xports id = .ref b ∧ s.xprtgcIdset.bit id = true)

theorem xprtGcReapTurn_ok (h : Entries s) (hturn : s.xprtGcReapTurn id = .ok (some t)) : Reaped s t id := by
  have hsame : Reaped s s id := ⟨h, fun _ hj => hj, fun _ => Or.inl rfl⟩
  rcases xprtGcReapTurn_cases hturn with rfl | ⟨hget, hone⟩
  · exact hsame
  · have hbit := (Bitvec.get_ok hget).2
    rcases xprtGcReapOne_cases hone with ⟨_, rfl⟩ | ⟨a, x, u, idset, hat, hx, hu, hclr, rfl⟩
    · exact hsame
    · have hclear := (Bitvec.clr_ok hclr).2.2.2
      rcases hu with rfl | ⟨v, hv, rfl⟩
      · refine ⟨h, fun j hj => ?_, fun _ => Or.inl rfl⟩
        rw [hclear] at hj
        exact (Bool.and_eq_true_iff.mp hj).2
      · obtain ⟨x', hx', hd⟩ := svcDestroy_ok hv
        cases hx.symm.trans hx'
        obtain ⟨y, hy, hyid⟩ := h id a hat
        cases hx.symm.trans hy
        have hxports : Function.update v.xports id .bad = v.xports := by
          rw [hd.xports, hyid, Function.update_idem]
        refine ⟨?_, ?_, ?_⟩
        · intro i b hib
          exact entries_destroyed h hx hd i b (hxports ▸ hib)
        · intro j hj
          rw [hclear] at hj
          rw [← hd.gcset]
          exact (Bool.and_eq_true_iff.mp hj).2
        · intro b
          by_cases hba : b = a
          · exact Or.inr ⟨hba ▸ hd.gone, hba ▸ hat, hbit⟩
          · exact Or.inl (hd.core hba)

end RpcMt.Registry
