import RpcMt.CalloutList

/-! What the operations on the callout list do to the list that the links pass through. Every one
of them returns, and the list it leaves is a function of the list it found. -/

namespace RpcMt

open Links

variable {H : Type}

/-- A callout in its place: its address and what it says. -/
abbrev Listed (H : Type) := CalloutId × SvcEntry H

namespace SvcEntry

variable (e : SvcEntry H)

def key : RpcUlong × RpcUlong := (e.scProg, e.scVers)

def toCallout : Callout H := ⟨e.scProg.val, e.scVers.val, e.scDispatch⟩

@[simp] theorem key_eq {prog vers : RpcUlong} :
    e.key = (prog, vers) ↔ e.scProg = prog ∧ e.scVers = vers := Prod.mk_inj

end SvcEntry

def hasKey (prog vers : RpcUlong) (x : Listed H) : Bool := x.2.key = (prog, vers)

/-- `sc_mapped` set in the callout at the address `s`. -/
def markMapped (s : CalloutId) (x : Listed H) : Listed H :=
  if x.1 = s then (x.1, { x.2 with scMapped := true }) else x

/-- `svc_is_mapped` on the list. -/
def isMapped (l : List (Listed H)) (prog vers : RpcUlong) : Bool :=
  (l.find? (hasKey prog vers)).any fun x => x.2.scMapped

/-- What `svc_register` answers and the list it leaves. -/
def registerList [DecidableEq H] (l : List (Listed H)) (rq : SvcTable.Request H) (fresh : CalloutId)
    (granted : Bool) : Bool × List (Listed H) :=
  let pmapIt (s : CalloutId) (l : List (Listed H)) : Bool × List (Listed H) :=
    if rq.protocol.val ≠ 0 then if granted then (true, l.map (markMapped s)) else (false, l)
    else (true, l)
  match l.find? (hasKey rq.prog rq.vers) with
  | some x => if x.2.scDispatch = rq.dispatch then pmapIt x.1 l else (false, l)
  | none => pmapIt fresh ((fresh, ⟨rq.prog, rq.vers, rq.dispatch, false⟩) :: l)

/-- The list that `svc_unregister` leaves. -/
def unregisterList (l : List (Listed H)) (prog vers : RpcUlong) : List (Listed H) :=
  l.eraseP (hasKey prog vers)

namespace SvcTable

variable {tab : SvcTable H} {l l₁ l₂ : List (Listed H)} {prog vers : RpcUlong} {s : CalloutId}
  {p q : Option CalloutId} {e : SvcEntry H} {fuel : Nat}

def next (tab : SvcTable H) (s : CalloutId) : Option CalloutId := (tab.callouts s).bind SvcCallout.scNext

def entryAt (tab : SvcTable H) (s : CalloutId) : Option (SvcEntry H) := (tab.callouts s).map SvcCallout.entry

/-- The callouts from `p` on are those of `l`. -/
structure Segment (tab : SvcTable H) (p : Option CalloutId) (l : List (Listed H)) : Prop where
  path : Path tab.next p (l.map Prod.fst)
  stored : ∀ x ∈ l, tab.entryAt x.1 = some x.2

/-- The callout list of the table is `l`. -/
structure Lists (tab : SvcTable H) (l : List (Listed H)) : Prop where
  segment : tab.Segment tab.svcHead l
  nodup : (l.map Prod.fst).Nodup
  bounded : l.length ≤ tab.allocated

theorem lists_empty : (empty : SvcTable H).Lists [] where
  segment := ⟨rfl, fun _ hx => nomatch hx⟩
  nodup := List.nodup_nil
  bounded := Nat.le_refl 0

theorem callout_of_entryAt (h : tab.entryAt s = some e) : tab.callout s = .ok ⟨tab.next s, e⟩ := by
  obtain ⟨c, hc, hce⟩ := Option.map_eq_some_iff.mp h
  unfold callout next
  rw [hc, ← hce]
  rfl

theorem Segment.callout (h : tab.Segment p ((s, e) :: l)) : tab.callout s = .ok ⟨tab.next s, e⟩ :=
  callout_of_entryAt (h.stored (s, e) List.mem_cons_self)

theorem Segment.start (h : tab.Segment p ((s, e) :: l)) : p = some s := h.path.1

theorem Segment.tail (h : tab.Segment p ((s, e) :: l)) : tab.Segment (tab.next s) l where
  path := h.path.2
  stored x hx := h.stored x (List.mem_cons_of_mem _ hx)

/-- Only the callouts of the segment matter. -/
theorem Segment.congr {tab' : SvcTable H} (h : tab.Segment p l)
    (heq : ∀ x ∈ l, tab'.callouts x.1 = tab.callouts x.1) : tab'.Segment p l where
  path := by
    apply h.path.congr
    intro m hm
    obtain ⟨x, hx, hxm⟩ := List.mem_map.mp hm
    unfold next
    rw [← hxm, heq x hx]
  stored x hx := by
    unfold entryAt
    rw [heq x hx]
    exact h.stored x hx

/-- The walk of `svc_find` past callouts with other keys. -/
theorem svcFindLoop_skip (h : tab.Segment q (l₁ ++ l₂)) (hno : ∀ x ∈ l₁, x.2.key ≠ (prog, vers)) :
    tab.svcFindLoop prog vers (l₁.length + fuel) p q =
      tab.svcFindLoop prog vers fuel ((l₁.getLast?.map Prod.fst).or p) (l₂.head?.map Prod.fst) := by
  induction l₁ generalizing p q with
  | nil =>
      cases l₂ with
      | nil =>
          rw [show q = none from h.path]
          simp
      | cons x l₂ =>
          rw [h.start]
          simp
  | cons x l₁ ih =>
      have hx : ¬(x.2.scProg = prog ∧ x.2.scVers = vers) := by
        rw [← SvcEntry.key_eq]
        exact hno x List.mem_cons_self
      rw [h.start, List.length_cons, Nat.add_right_comm, svcFindLoop, h.callout]
      simp only [bind, Except.bind, if_neg hx]
      rw [ih h.tail fun y hy => hno y (List.mem_cons_of_mem _ hy)]
      cases hl : l₁.getLast? <;> simp [List.getLast?_cons, hl]

theorem svcFind_absent (h : tab.Lists l) (hno : ∀ x ∈ l, x.2.key ≠ (prog, vers)) :
    ∃ prev, tab.svcFind prog vers = .ok (prev, none) := by
  obtain ⟨fuel, hfuel⟩ := Nat.exists_eq_add_of_le h.bounded
  have hseg : tab.Segment tab.svcHead (l ++ []) := by
    rw [List.append_nil]
    exact h.segment
  unfold svcFind
  rw [hfuel, svcFindLoop_skip hseg hno]
  exact ⟨_, by cases fuel <;> rfl⟩

theorem svcFind_present (h : tab.Lists (l₁ ++ (s, e) :: l₂)) (hno : ∀ x ∈ l₁, x.2.key ≠ (prog, vers))
    (hkey : e.key = (prog, vers)) :
    tab.svcFind prog vers = .ok (l₁.getLast?.map Prod.fst, some s) := by
  have hlen : l₁.length + (l₂.length + 1) ≤ tab.allocated := by
    have hb := h.bounded
    rwa [List.length_append, List.length_cons] at hb
  obtain ⟨fuel, hfuel⟩ := Nat.exists_eq_add_of_le hlen
  have hs : tab.callout s = .ok ⟨tab.next s, e⟩ :=
    callout_of_entryAt (h.segment.stored (s, e) (by simp))
  unfold svcFind
  rw [hfuel, show l₁.length + (l₂.length + 1) + fuel = l₁.length + (l₂.length + fuel + 1) by omega,
    svcFindLoop_skip h.segment hno]
  simp only [List.head?_cons, Option.map_some, Option.or_none, svcFindLoop, hs, bind, Except.bind]
  rw [if_pos (e.key_eq.mp hkey)]
  rfl

/-- The walk of `request_match_prog_version` is the one over the list. -/
theorem matchLoop_eq (h : tab.Segment q l) (hfuel : l.length ≤ fuel) (lowVers highVers : Nat)
    (progFound : Bool) :
    tab.matchLoop prog vers fuel q lowVers highVers progFound =
      .ok (matchProgVersion prog.val vers.val (l.map fun x => x.2.toCallout) lowVers highVers progFound) := by
  induction l generalizing q fuel lowVers highVers progFound with
  | nil =>
      rw [show q = none from h.path]
      cases fuel <;> rfl
  | cons x l ih =>
      cases fuel with
      | zero => exact absurd hfuel (by simp)
      | succ fuel =>
          have hl : l.length ≤ fuel := Nat.le_of_succ_le_succ hfuel
          rw [h.start, matchLoop, h.callout]
          simp only [bind, Except.bind, List.map_cons, matchProgVersion, SvcEntry.toCallout, Fin.val_inj]
          by_cases hprog : x.2.scProg = prog
          · by_cases hvers : x.2.scVers = vers
            · simp [hprog, hvers, pure, Except.pure]
            · simp only [if_pos hprog, if_neg hvers]
              exact ih h.tail hl _ _ _
          · simp only [if_neg hprog]
            exact ih h.tail hl _ _ _

theorem requestMatchProgVersion_eq (h : tab.Lists l) :
    tab.requestMatchProgVersion prog vers =
      .ok (matchProgVersion prog.val vers.val (l.map fun x => x.2.toCallout) sizeMax 0 false) :=
  matchLoop_eq h.segment h.bounded _ _ _

theorem find_none_of_absent (hno : ∀ x ∈ l, x.2.key ≠ (prog, vers)) : l.find? (hasKey prog vers) = none := by
  rw [List.find?_eq_none]
  intro x hx
  simpa [hasKey] using hno x hx

theorem find_present (hno : ∀ x ∈ l₁, x.2.key ≠ (prog, vers)) (hkey : e.key = (prog, vers)) :
    (l₁ ++ (s, e) :: l₂).find? (hasKey prog vers) = some (s, e) := by
  rw [List.find?_append, find_none_of_absent hno]
  simp [hasKey, hkey]

theorem eraseP_present (hno : ∀ x ∈ l₁, x.2.key ≠ (prog, vers)) (hkey : e.key = (prog, vers)) :
    (l₁ ++ (s, e) :: l₂).eraseP (hasKey prog vers) = l₁ ++ l₂ := by
  have hno' : ∀ x ∈ l₁, ¬hasKey prog vers x = true := fun x hx => by simpa [hasKey] using hno x hx
  rw [List.eraseP_append_right _ hno']
  simp [hasKey, hkey]

/-- A key is on the list nowhere, or there is a first callout that has it. -/
theorem key_cases (l : List (Listed H)) (prog vers : RpcUlong) :
    (∀ x ∈ l, x.2.key ≠ (prog, vers)) ∨
      ∃ l₁ s e l₂, l = l₁ ++ (s, e) :: l₂ ∧ (∀ x ∈ l₁, x.2.key ≠ (prog, vers)) ∧ e.key = (prog, vers) := by
  induction l with
  | nil => exact Or.inl nofun
  | cons x l ih =>
      by_cases hx : x.2.key = (prog, vers)
      · exact Or.inr ⟨[], x.1, x.2, l, rfl, nofun, hx⟩
      · rcases ih with hno | ⟨l₁, s, e, l₂, hl, hno, hkey⟩
        · exact Or.inl (List.forall_mem_cons.mpr ⟨hx, hno⟩)
        · refine Or.inr ⟨x :: l₁, s, e, l₂, ?_, List.forall_mem_cons.mpr ⟨hx, hno⟩, hkey⟩
          rw [hl, List.cons_append]

theorem Lists.push (h : tab.Lists l) (hfresh : tab.callouts s = none) (prog vers : RpcUlong) (dispatch : H) :
    (tab.push s prog vers dispatch).Lists ((s, ⟨prog, vers, dispatch, false⟩) :: l) := by
  have hnot : ∀ x ∈ l, x.1 ≠ s := by
    intro x hx heq
    have hstored := h.segment.stored x hx
    rw [entryAt, heq, hfresh] at hstored
    cases hstored
  have hkept : ∀ x ∈ l, (tab.push s prog vers dispatch).callouts x.1 = tab.callouts x.1 :=
    fun x hx => Function.update_of_ne (hnot x hx) _ _
  have hself : (tab.push s prog vers dispatch).callouts s = some ⟨tab.svcHead, ⟨prog, vers, dispatch, false⟩⟩ :=
    Function.update_self _ _ _
  have hseg := h.segment.congr hkept
  refine ⟨⟨⟨rfl, ?_⟩, ?_⟩, ?_, Nat.succ_le_succ h.bounded⟩
  · rw [next, hself]
    exact hseg.path
  · intro x hx
    rcases List.mem_cons.mp hx with rfl | hx
    · rw [entryAt, hself]
      rfl
    · exact hseg.stored x hx
  · rw [List.map_cons, List.nodup_cons]
    refine ⟨?_, h.nodup⟩
    intro hmem
    obtain ⟨x, hx, hxs⟩ := List.mem_map.mp hmem
    exact hnot x hx hxs

theorem write_next (e : SvcEntry H) : (tab.write s ⟨tab.next s, e⟩).next = tab.next := by
  funext m
  by_cases hm : m = s
  · subst hm
    simp [next, write]
  · simp [next, write, Function.update_of_ne hm]

theorem map_fst_markMapped (s : CalloutId) (l : List (Listed H)) :
    (l.map (markMapped s)).map Prod.fst = l.map Prod.fst := by
  rw [List.map_map]
  apply List.map_congr_left
  intro x _
  unfold Function.comp markMapped
  split <;> rfl

theorem Lists.mark (h : tab.Lists l) (he : tab.entryAt s = some e) :
    (tab.write s ⟨tab.next s, { e with scMapped := true }⟩).Lists (l.map (markMapped s)) := by
  refine ⟨⟨?_, ?_⟩, ?_, ?_⟩
  · rw [map_fst_markMapped, write_next]
    exact h.segment.path
  · intro y hy
    obtain ⟨x, hx, rfl⟩ := List.mem_map.mp hy
    have hstored := h.segment.stored x hx
    unfold markMapped
    by_cases hxs : x.1 = s
    · rw [hxs] at hstored
      obtain rfl : e = x.2 := Option.some.inj (he.symm.trans hstored)
      simp [hxs, entryAt, write]
    · rw [if_neg hxs, ← hstored]
      simp [entryAt, write, Function.update_of_ne hxs]
  · rw [map_fst_markMapped]
    exact h.nodup
  · rw [List.length_map]
    exact h.bounded

/-- Freeing a callout that is no longer on the list. -/
theorem Segment.free (h : tab.Segment p l) (hnot : ∀ x ∈ l, x.1 ≠ s) : (tab.free s).Segment p l :=
  h.congr fun x hx => Function.update_of_ne (hnot x hx) _ _

/-- A callout taken off the list, from its head or from behind another one, and freed. -/
theorem Lists.remove (h : tab.Lists (l₁ ++ (s, e) :: l₂)) :
    ∃ linked, tab.bypass (l₁.getLast?.map Prod.fst) (tab.next s) = .ok linked ∧
      (linked.free s).Lists (l₁ ++ l₂) := by
  have hids := h.nodup
  rw [List.map_append, List.map_cons] at hids
  have hnot : ∀ x ∈ l₁ ++ l₂, x.1 ≠ s := by
    intro x hx heq
    have hs : s ∉ l₁.map Prod.fst ++ l₂.map Prod.fst := (List.nodup_middle.mp hids).notMem
    apply hs
    rw [← List.map_append, ← heq]
    exact List.mem_map_of_mem hx
  have hnodup : ((l₁ ++ l₂).map Prod.fst).Nodup := by
    rw [List.map_append]
    exact (List.nodup_cons.mp (List.nodup_middle.mp hids)).2
  have hlen : (l₁ ++ l₂).length ≤ tab.allocated - 1 := by
    have hb := h.bounded
    simp only [List.length_append, List.length_cons] at hb ⊢
    omega
  rcases List.eq_nil_or_concat l₁ with rfl | ⟨l₀, u, rfl⟩
  · refine ⟨{ tab with svcHead := tab.next s }, rfl, Segment.free ?_ hnot, hnodup, hlen⟩
    exact h.segment.tail.congr fun _ _ => rfl
  · have hu : tab.entryAt u.1 = some u.2 := h.segment.stored u (by simp)
    refine ⟨tab.write u.1 ⟨tab.next s, u.2⟩, ?_, Segment.free ⟨?_, ?_⟩ hnot, hnodup, hlen⟩
    · simp [bypass, callout_of_entryAt hu, bind, Except.bind, pure, Except.pure]
    · have hnext : (tab.write u.1 ⟨tab.next s, u.2⟩).next = Function.update tab.next u.1 (tab.next s) := by
        funext m
        by_cases hm : m = u.1
        · subst hm
          simp [next, write]
        · simp [next, write, Function.update_of_ne hm]
      rw [hnext]
      have hpath := h.segment.path
      simp only [List.concat_eq_append, List.append_assoc, List.map_append, List.map_cons, List.map_nil,
        List.cons_append, List.nil_append] at hpath hids ⊢
      exact hpath.unlink hids
    · intro x hx
      have hstored := h.segment.stored x (by simp at hx ⊢; tauto)
      by_cases hxu : x.1 = u.1
      · rw [hxu] at hstored
        have heq : u.2 = x.2 := Option.some.inj (hu.symm.trans hstored)
        simp [entryAt, write, hxu, heq]
      · rw [← hstored]
        simp [entryAt, write, Function.update_of_ne hxu]

/-- The tail of `svc_register` on a callout of the list. -/
theorem Lists.pmapIt (h : tab.Lists l) (he : tab.entryAt s = some e) (binder : Binder) (rq : Request H)
    (granted : Bool) :
    ∃ ok tab' binder' l', tab.pmapIt binder rq granted s = .ok (ok, tab', binder') ∧ tab'.Lists l' ∧
      (ok, l') = (if rq.protocol.val ≠ 0 then if granted then (true, l.map (markMapped s)) else (false, l)
        else (true, l)) ∧
      binder' = if rq.protocol.val ≠ 0 ∧ granted = true
        then binder.pmapSet rq.prog rq.vers rq.protocol rq.xpPort else binder := by
  unfold SvcTable.pmapIt
  by_cases hprot : rq.protocol.val ≠ 0
  · cases granted with
    | false => exact ⟨false, tab, binder, l, by simp [hprot]; rfl, h, by simp [hprot], by simp⟩
    | true =>
        refine ⟨true, _, _, _, ?_, h.mark he, by simp [hprot], by simp [hprot]; rfl⟩
        simp [hprot, callout_of_entryAt he, bind, Except.bind, pure, Except.pure]
  · exact ⟨true, tab, binder, l, by simp [hprot]; rfl, h, by simp [hprot], by simp [hprot]⟩

/-- The mapping that a call of `svc_register` adds. -/
def registerBinder [DecidableEq H] (binder : Binder) (l : List (Listed H)) (rq : Request H)
    (granted : Bool) : Binder :=
  if (∀ x ∈ l.find? (hasKey rq.prog rq.vers), x.2.scDispatch = rq.dispatch) ∧ rq.protocol.val ≠ 0 ∧
    granted = true then binder.pmapSet rq.prog rq.vers rq.protocol rq.xpPort else binder

theorem svcRegister_spec [DecidableEq H] (h : tab.Lists l) (binder : Binder) (rq : Request H)
    (hfresh : tab.callouts s = none) (granted : Bool) :
    ∃ tab', tab.svcRegister binder rq s granted =
        .ok ((registerList l rq s granted).1, tab', registerBinder binder l rq granted) ∧
      tab'.Lists (registerList l rq s granted).2 := by
  unfold svcRegister registerList registerBinder
  rcases key_cases l rq.prog rq.vers with hno | ⟨l₁, n, e, l₂, rfl, hno, hkey⟩
  · obtain ⟨prev, hfind⟩ := svcFind_absent h hno
    have hpush := h.push hfresh rq.prog rq.vers rq.dispatch
    obtain ⟨ok, tab', binder', l', hrun, hlists, hok, hbinder⟩ :=
      hpush.pmapIt (hpush.segment.stored _ List.mem_cons_self) binder rq granted
    refine ⟨tab', ?_, ?_⟩
    · simp only [hfind, bind, Except.bind, hrun, find_none_of_absent hno, ← hok, hbinder]
      simp
    · simp only [find_none_of_absent hno, ← hok]
      exact hlists
  · have he : tab.entryAt n = some e := h.segment.stored (n, e) (by simp)
    have hfind := svcFind_present h hno hkey
    by_cases hdisp : e.scDispatch = rq.dispatch
    · obtain ⟨ok, tab', binder', l', hrun, hlists, hok, hbinder⟩ := h.pmapIt he binder rq granted
      refine ⟨tab', ?_, ?_⟩
      · simp only [hfind, bind, Except.bind, callout_of_entryAt he, if_pos hdisp, hrun, find_present hno hkey,
          ← hok, hbinder]
        simp [hdisp]
      · simp only [find_present hno hkey, if_pos hdisp, ← hok]
        exact hlists
    · refine ⟨tab, ?_, ?_⟩
      · simp [hfind, bind, Except.bind, callout_of_entryAt he, hdisp, find_present hno hkey, pure, Except.pure]
      · simp only [find_present hno hkey, if_neg hdisp]
        exact h

theorem svcIsMapped_spec (h : tab.Lists l) : tab.svcIsMapped prog vers = .ok (isMapped l prog vers) := by
  unfold svcIsMapped isMapped
  rcases key_cases l prog vers with hno | ⟨l₁, n, e, l₂, rfl, hno, hkey⟩
  · obtain ⟨prev, hfind⟩ := svcFind_absent h hno
    rw [hfind, find_none_of_absent hno]
    rfl
  · rw [svcFind_present h hno hkey, find_present hno hkey]
    have he : tab.callout n = .ok ⟨tab.next n, e⟩ :=
      callout_of_entryAt (h.segment.stored (n, e) (by simp))
    simp [bind, Except.bind, he, pure, Except.pure]

/-- The binder after `svc_unregister`: the flag that decides is that of a callout still on the list. -/
def unregisterBinder (binder : Binder) (l : List (Listed H)) (prog vers : RpcUlong) : Binder :=
  if (l.find? (hasKey prog vers)).isSome = true ∧ isMapped (unregisterList l prog vers) prog vers = false
  then binder.pmapUnset prog vers else binder

theorem svcUnregister_spec (h : tab.Lists l) (binder : Binder) (prog vers : RpcUlong) :
    ∃ tab', tab.svcUnregister binder prog vers = .ok (tab', unregisterBinder binder l prog vers) ∧
      tab'.Lists (unregisterList l prog vers) := by
  unfold svcUnregister unregisterBinder unregisterList
  rcases key_cases l prog vers with hno | ⟨l₁, n, e, l₂, rfl, hno, hkey⟩
  · obtain ⟨prev, hfind⟩ := svcFind_absent h hno
    have hnone := find_none_of_absent hno
    rw [List.eraseP_of_forall_not fun x hx => by simpa [hasKey] using hno x hx]
    exact ⟨tab, by simp [hfind, hnone, bind, Except.bind, pure, Except.pure], h⟩
  · obtain ⟨linked, hlinked, hlists⟩ := h.remove
    have he : tab.callout n = .ok ⟨tab.next n, e⟩ :=
      callout_of_entryAt (h.segment.stored (n, e) (by simp))
    rw [eraseP_present hno hkey]
    refine ⟨linked.free n, ?_, hlists⟩
    simp only [svcFind_present h hno hkey, find_present hno hkey, bind, Except.bind, he, hlinked,
      svcIsMapped_spec hlists]
    cases isMapped (l₁ ++ l₂) prog vers <;> rfl

end SvcTable

end RpcMt
