import RpcMt.XdrmemCalls

/-! Filters that read a memory stream. Such a filter depends on the buffer only through the bytes that
its calls hand out; what lies past byte `n` of the buffer makes no difference to it exactly when no
call hands out a byte from there. -/

namespace RpcMt

/-- The calls of a filter that decodes. -/
inductive ReadCall where
  | getlong
  | getint32
  | getbytes (len : Nat)
  | getpos
  | setpos (pos : Nat)
  | inlineGet (len : Nat)

namespace ReadCall

def call : ReadCall → StreamCall
  | .getlong => .getlong
  | .getint32 => .getint32
  | .getbytes len => .getbytes len
  | .getpos => .getpos
  | .setpos pos => .setpos pos
  | .inlineGet len => .inlineGet len

/-- How many bytes a call asks for. -/
def extent : ReadCall → Nat
  | .getlong => 4
  | .getint32 => 4
  | .getbytes len => len
  | .inlineGet len => len
  | _ => 0

/-- The bytes that a call is handed: none where the stream is short. -/
def handed (c : ReadCall) (v : View) : List Byte :=
  if v.handy < c.extent then [] else (v.bytes.drop v.pos).take c.extent

end ReadCall

/-- A filter that decodes, as a tree of calls. -/
inductive ReadProg (α : Type) where
  | ret (ok : Bool) (a : α)
  | call (c : ReadCall) (next : StreamAnswer → ReadProg α)

namespace ReadProg

variable {α β : Type}

def prog : ReadProg α → StreamProg α
  | .ret ok a => .ret ok a
  | .call c next => .call c.call fun answer => (next answer).prog

/-- One filter after the other. -/
def bind : ReadProg α → (Bool → α → ReadProg β) → ReadProg β
  | .ret ok a, g => g ok a
  | .call c next, g => .call c fun answer => (next answer).bind g

/-- What the calls of a filter are handed, one after the other. -/
def handedOut (failfast : Bool) : ReadProg α → View → List (List Byte)
  | .ret _ _, _ => []
  | .call c next, v => c.handed v :: match c.call.run failfast v with
      | .error _ => []
      | .ok (answer, w) => (next answer).handedOut failfast w

/-- No call is handed a byte at or past byte `n` of the buffer. -/
def Within (failfast : Bool) (n : Nat) : ReadProg α → View → Prop
  | .ret _ _, _ => True
  | .call c next, v => (c.handed v ≠ [] → v.pos + c.extent ≤ n) ∧ match c.call.run failfast v with
      | .error _ => True
      | .ok (answer, w) => (next answer).Within failfast n w

end ReadProg

/-! ### A call depends on the bytes it is handed -/

namespace ReadCall

/-- What a call comes to, from the cursor, the count of bytes left and the bytes handed to it: its
answer, and the cursor and the count that it leaves. -/
def outcome (failfast : Bool) (pos handy : Nat) (bytes : List Byte) : ReadCall → Res (StreamAnswer × Nat × Nat)
  | .getlong | .getint32 =>
      if handy < 4 then xdrAbort failfast (.ofWord none, pos, handy)
      else .ok (.ofWord (some (wordOf bytes)), pos + 4, handy - 4)
  | .getbytes len =>
      if handy < len then xdrAbort failfast (.ofBytes none, pos, handy)
      else .ok (.ofBytes (some bytes), pos + len, handy - len)
  | .getpos => .ok (⟨true, 0, [], pos % uintRange⟩, pos, handy)
  | .setpos p =>
      if pos + handy < p ∨ uintRange ≤ pos + handy - p then xdrAbort failfast (.ofBool false, pos, handy)
      else .ok (.ofBool true, p, pos + handy - p)
  | .inlineGet len =>
      if handy < len then .ok (.ofBytes none, pos, handy)
      else .ok (.ofBytes (some bytes), pos + len, handy - len)

variable {failfast : Bool} {v : View}

/-- An outcome on a stream: it stays over the same bytes. -/
def onView (v : View) (r : StreamAnswer × Nat × Nat) : StreamAnswer × View :=
  (r.1, { v with pos := r.2.1, handy := r.2.2 })

theorem map_xdrAbort {β γ : Type} (f : β → γ) (b : β) :
    (xdrAbort failfast b).map f = xdrAbort failfast (f b) := by
  cases failfast with
  | false => rfl
  | true => rfl

theorem bind_xdrAbort {β γ : Type} (f : β → γ) (b : β) :
    (xdrAbort failfast b >>= fun r => pure (f r)) = xdrAbort failfast (f b) := by
  cases failfast with
  | false => rfl
  | true => rfl

theorem getbytes_eq (hin : v.InBounds) (len : Nat) :
    xdrmemGetbytes failfast len v =
      if v.handy < len then xdrAbort failfast (none, v)
      else .ok (some ((v.bytes.drop v.pos).take len), { v with pos := v.pos + len, handy := v.handy - len }) := by
  unfold View.InBounds at hin
  unfold xdrmemGetbytes
  split
  · rfl
  · rw [if_neg (by omega)]

theorem getlong_eq (hin : v.InBounds) :
    xdrmemGetlong failfast v =
      if v.handy < 4 then xdrAbort failfast (none, v)
      else .ok (some (wordOf ((v.bytes.drop v.pos).take 4)), { v with pos := v.pos + 4, handy := v.handy - 4 }) := by
  rw [xdrmemGetlong, getbytes_eq hin]
  split
  · exact bind_xdrAbort _ _
  · rfl

theorem inline_eq (hin : v.InBounds) (len : Nat) :
    v.inline len (fun old => old) =
      if v.handy < len then .ok (none, v)
      else .ok (some ((v.bytes.drop v.pos).take len), { v with pos := v.pos + len, handy := v.handy - len }) := by
  unfold View.InBounds at hin
  unfold View.inline
  split
  · rfl
  · have hsame : v.bytes.take v.pos ++ (v.bytes.drop v.pos).take len ++ v.bytes.drop (v.pos + len) = v.bytes := by
      rw [List.append_assoc, ← List.drop_drop, List.take_append_drop, List.take_append_drop]
    rw [if_neg (by omega)]
    dsimp only
    rw [hsame]

theorem handed_of_le {c : ReadCall} (h : c.extent ≤ v.handy) :
    c.handed v = (v.bytes.drop v.pos).take c.extent := if_neg (Nat.not_lt.mpr h)

/-- A call depends on the buffer through the bytes it is handed, and leaves the buffer as it is. -/
theorem run_eq (hin : v.InBounds) (c : ReadCall) :
    c.call.run failfast v = (c.outcome failfast v.pos v.handy (c.handed v)).map (onView v) := by
  cases c with
  | getlong | getint32 =>
      show (xdrmemGetlong failfast v >>= _) = _
      rw [getlong_eq hin]
      simp only [outcome]
      split
      · rw [map_xdrAbort]
        exact bind_xdrAbort _ _
      · rename_i hlong
        rw [handed_of_le (Nat.le_of_not_lt hlong)]
        rfl
  | getbytes len =>
      show (xdrmemGetbytes failfast len v >>= _) = _
      rw [getbytes_eq hin]
      simp only [outcome]
      split
      · rw [map_xdrAbort]
        exact bind_xdrAbort _ _
      · rename_i hlong
        rw [handed_of_le (Nat.le_of_not_lt hlong)]
        rfl
  | getpos => rfl
  | setpos pos =>
      show (v.setpos failfast pos >>= _) = _
      unfold View.setpos
      simp only [outcome]
      split
      · rw [map_xdrAbort]
        exact bind_xdrAbort _ _
      · rfl
  | inlineGet len =>
      show (v.inline len (fun old => old) >>= _) = _
      rw [inline_eq hin]
      simp only [outcome]
      split
      · rfl
      · rename_i hlong
        rw [handed_of_le (Nat.le_of_not_lt hlong)]
        rfl

/-- The cursor moves over the same stretch of the buffer. -/
theorem outcome_room {c : ReadCall} {pos handy : Nat} {bytes : List Byte} {r : StreamAnswer × Nat × Nat}
    (h : c.outcome failfast pos handy bytes = .ok r) : r.2.1 + r.2.2 = pos + handy := by
  have habort : ∀ a : StreamAnswer, xdrAbort failfast (a, pos, handy) = .ok r → r.2.1 + r.2.2 = pos + handy := by
    intro a ha
    cases failfast with
    | false =>
        cases ha
        rfl
    | true => cases ha
  cases c with
  | getpos =>
      cases h
      rfl
  | inlineGet len =>
      simp only [outcome] at h
      split at h
      · cases h
        rfl
      · cases h
        dsimp only
        omega
  | _ =>
      simp only [outcome] at h
      split at h
      · exact habort _ h
      · cases h
        dsimp only
        omega

end ReadCall

/-! ### Buffers that agree up to some byte -/

/-- Two streams at the same place of buffers of the same length that agree on the first `n` bytes. -/
structure AlikeTo (n : Nat) (v v' : View) : Prop where
  pos : v'.pos = v.pos
  handy : v'.handy = v.handy
  length : v'.bytes.length = v.bytes.length
  bytes : v'.bytes.take n = v.bytes.take n

theorem AlikeTo.inBounds {n : Nat} {v v' : View} (h : AlikeTo n v v') (hin : v.InBounds) : v'.InBounds := by
  unfold View.InBounds at *
  rw [h.pos, h.handy, h.length]
  exact hin

theorem AlikeTo.move {n : Nat} {v v' : View} (h : AlikeTo n v v') (pos handy : Nat) :
    AlikeTo n { v with pos := pos, handy := handy } { v' with pos := pos, handy := handy } :=
  ⟨rfl, rfl, h.length, h.bytes⟩

theorem AlikeTo.handed {n : Nat} {v v' : View} (h : AlikeTo n v v') (hin : v.InBounds) {c : ReadCall}
    (hc : c.handed v ≠ [] → v.pos + c.extent ≤ n) : c.handed v' = c.handed v := by
  rcases Nat.lt_or_ge v.handy c.extent with hshort | hle
  · rw [ReadCall.handed, ReadCall.handed, h.handy, if_pos hshort, if_pos hshort]
  · have hslice : ∀ l : List Byte, v.pos + c.extent ≤ n →
        (l.drop v.pos).take c.extent = ((l.take n).drop v.pos).take c.extent := by
      intro l hn
      rw [List.drop_take, List.take_take, Nat.min_eq_left (by omega)]
    rw [ReadCall.handed_of_le hle, ReadCall.handed_of_le (by rw [h.handy]; exact hle), h.pos]
    rcases Nat.eq_zero_or_pos c.extent with hzero | hpos
    · rw [hzero, List.take_zero, List.take_zero]
    · have hne : c.handed v ≠ [] := by
        rw [ReadCall.handed_of_le hle, ← List.length_pos_iff, List.length_take, List.length_drop]
        unfold View.InBounds at hin
        omega
      rw [hslice v'.bytes (hc hne), hslice v.bytes (hc hne), h.bytes]

namespace ReadProg

variable {α β : Type} {failfast : Bool} {n : Nat}

/-- What a filter comes to: its status, its value, and where it leaves the stream. -/
def result (failfast : Bool) (p : ReadProg α) (v : View) : Res (Bool × α × Nat × Nat) :=
  (p.prog.run failfast v).map fun r => (r.1, r.2.1, r.2.2.pos, r.2.2.handy)

theorem result_call {c : ReadCall} {next : StreamAnswer → ReadProg α} {v : View} (hin : v.InBounds) :
    (ReadProg.call c next).result failfast v = (c.outcome failfast v.pos v.handy (c.handed v) >>= fun r =>
      (next r.1).result failfast { v with pos := r.2.1, handy := r.2.2 }) := by
  rw [result, prog, StreamProg.run, ReadCall.run_eq hin]
  cases c.outcome failfast v.pos v.handy (c.handed v) with
  | error e => rfl
  | ok r => rfl

theorem handedOut_call {c : ReadCall} {next : StreamAnswer → ReadProg α} {v : View} (hin : v.InBounds) :
    (ReadProg.call c next).handedOut failfast v = c.handed v ::
      match c.outcome failfast v.pos v.handy (c.handed v) with
      | .error _ => []
      | .ok r => (next r.1).handedOut failfast { v with pos := r.2.1, handy := r.2.2 } := by
  rw [handedOut, ReadCall.run_eq hin]
  cases c.outcome failfast v.pos v.handy (c.handed v) with
  | error e => rfl
  | ok r => rfl

theorem within_call {c : ReadCall} {next : StreamAnswer → ReadProg α} {v : View} (hin : v.InBounds) :
    (ReadProg.call c next).Within failfast n v ↔ (c.handed v ≠ [] → v.pos + c.extent ≤ n) ∧
      ∀ r, c.outcome failfast v.pos v.handy (c.handed v) = .ok r →
        (next r.1).Within failfast n { v with pos := r.2.1, handy := r.2.2 } := by
  rw [Within, ReadCall.run_eq hin]
  cases c.outcome failfast v.pos v.handy (c.handed v) with
  | error e => simp [Except.map]
  | ok r => simp [Except.map, ReadCall.onView]

theorem inBounds_outcome {c : ReadCall} {v : View} (hin : v.InBounds) {r : StreamAnswer × Nat × Nat}
    (h : c.outcome failfast v.pos v.handy (c.handed v) = .ok r) :
    View.InBounds { v with pos := r.2.1, handy := r.2.2 } := by
  have hroom := ReadCall.outcome_room h
  unfold View.InBounds at *
  dsimp only
  omega

/-- A filter that is handed nothing past byte `n` cannot tell two buffers apart that agree up to there. -/
theorem alike_of_within {p : ReadProg α} {v v' : View} (hw : p.Within failfast n v) (h : AlikeTo n v v')
    (hin : v.InBounds) :
    p.result failfast v' = p.result failfast v ∧ p.handedOut failfast v' = p.handedOut failfast v := by
  induction p generalizing v v' with
  | ret ok a =>
      refine ⟨?_, rfl⟩
      show Except.ok (ok, a, v'.pos, v'.handy) = Except.ok (ok, a, v.pos, v.handy)
      rw [h.pos, h.handy]
  | call c next ih =>
      obtain ⟨hc, hnext⟩ := (within_call hin).mp hw
      have hhanded := h.handed hin hc
      rw [result_call hin, result_call (h.inBounds hin), handedOut_call hin, handedOut_call (h.inBounds hin),
        hhanded, h.pos, h.handy]
      cases hout : c.outcome failfast v.pos v.handy (c.handed v) with
      | error e => exact ⟨rfl, rfl⟩
      | ok r =>
          obtain ⟨hresult, hrest⟩ := ih r.1 (hnext r hout) (h.move r.2.1 r.2.2) (inBounds_outcome hin hout)
          exact ⟨hresult, congrArg (List.cons _) hrest⟩

/-- A call that is handed a byte past the end of `d` shows it: some other bytes there give another
answer. -/
theorem extent_le_of_handed {c : ReadCall} {op : XdrOp} {d L : List Byte} {pos handy : Nat}
    (hroom : pos + handy ≤ (d ++ L).length)
    (h : c.handed ⟨op, d ++ L.map (· + 1), pos, handy⟩ = c.handed ⟨op, d ++ L, pos, handy⟩)
    (hne : c.handed ⟨op, d ++ L, pos, handy⟩ ≠ []) : pos + c.extent ≤ d.length := by
  by_contra hpast
  have hle : c.extent ≤ handy := by
    by_contra hshort
    apply hne
    rw [ReadCall.handed, if_pos (Nat.lt_of_not_le hshort)]
  have hpos : 0 < c.extent := by
    rcases Nat.eq_zero_or_pos c.extent with hzero | hpos
    · rw [ReadCall.handed_of_le hle, hzero, List.take_zero] at hne
      exact absurd rfl hne
    · exact hpos
  rw [ReadCall.handed_of_le hle, ReadCall.handed_of_le hle] at h
  -- The last byte handed out lies past `d`.
  obtain ⟨i, hi⟩ : ∃ i, pos + (c.extent - 1) = d.length + i := ⟨pos + c.extent - 1 - d.length, by omega⟩
  have hlt : i < L.length := by
    rw [List.length_append] at hroom
    omega
  have hlast := congrArg (fun l => l[c.extent - 1]?) h
  dsimp only at hlast
  rw [List.getElem?_take_of_lt (by omega), List.getElem?_take_of_lt (by omega), List.getElem?_drop,
    List.getElem?_drop, hi, List.getElem?_append_right (by omega), List.getElem?_append_right (by omega),
    Nat.add_sub_cancel_left, List.getElem?_map, List.getElem?_eq_getElem hlt] at hlast
  have hbyte : L[i] + 1 = L[i] := Option.some.inj hlast
  exact absurd hbyte (by simp)

/-- Conversely, a filter that is handed the same bytes whatever follows `d` is handed nothing past `d`. -/
theorem within_of_alike {p : ReadProg α} {op : XdrOp} {d : List Byte} {len pos handy : Nat}
    (h : ∀ L L' : List Byte, L.length = len → L'.length = len →
      p.handedOut failfast ⟨op, d ++ L, pos, handy⟩ = p.handedOut failfast ⟨op, d ++ L', pos, handy⟩)
    (hroom : pos + handy ≤ d.length + len) {L : List Byte} (hL : L.length = len) :
    p.Within failfast d.length ⟨op, d ++ L, pos, handy⟩ := by
  induction p generalizing pos handy with
  | ret ok a => trivial
  | call c next ih =>
      have hin : ∀ L : List Byte, L.length = len → View.InBounds ⟨op, d ++ L, pos, handy⟩ := by
        intro L hL
        show pos + handy ≤ (d ++ L).length
        rw [List.length_append, hL]
        exact hroom
      have hhead : ∀ L', L'.length = len →
          c.handed ⟨op, d ++ L', pos, handy⟩ = c.handed ⟨op, d ++ L, pos, handy⟩ := by
        intro L' hL'
        have heq := h L' L hL' hL
        rw [handedOut_call (hin L' hL'), handedOut_call (hin L hL)] at heq
        exact (List.cons.inj heq).1
      refine (within_call (hin L hL)).mpr ⟨?_, ?_⟩
      · exact extent_le_of_handed (hin L hL) (hhead _ (by rw [List.length_map, hL]))
      · intro r hr
        refine ih r.1 (fun L₁ L₂ h₁ h₂ => ?_) ?_
        · have heq := h L₁ L₂ h₁ h₂
          rw [handedOut_call (hin L₁ h₁), handedOut_call (hin L₂ h₂)] at heq
          have hrest := (List.cons.inj heq).2
          dsimp only at hrest hr
          rw [hhead L₁ h₁, hhead L₂ h₂, hr] at hrest
          exact hrest
        · have hmoved := ReadCall.outcome_room hr
          dsimp only at hmoved
          omega

/-- What follows `d` in a buffer makes no difference to a filter that is handed nothing past `d`. -/
theorem alike_append {p : ReadProg α} {op : XdrOp} {d L L₁ L₂ : List Byte} {pos handy : Nat}
    (hw : p.Within failfast d.length ⟨op, d ++ L, pos, handy⟩) (hroom : pos + handy ≤ d.length + L.length)
    (h₁ : L₁.length = L.length) (h₂ : L₂.length = L.length) :
    p.result failfast ⟨op, d ++ L₁, pos, handy⟩ = p.result failfast ⟨op, d ++ L₂, pos, handy⟩ ∧
      p.handedOut failfast ⟨op, d ++ L₁, pos, handy⟩ = p.handedOut failfast ⟨op, d ++ L₂, pos, handy⟩ := by
  have halike : ∀ L' : List Byte, L'.length = L.length →
      AlikeTo d.length ⟨op, d ++ L, pos, handy⟩ ⟨op, d ++ L', pos, handy⟩ := by
    intro L' hL'
    refine ⟨rfl, rfl, ?_, ?_⟩
    · rw [List.length_append, List.length_append, hL']
    · rw [List.take_left, List.take_left]
  have hin : View.InBounds ⟨op, d ++ L, pos, handy⟩ := by
    show pos + handy ≤ (d ++ L).length
    rw [List.length_append]
    exact hroom
  obtain ⟨hr₁, ho₁⟩ := alike_of_within hw (halike L₁ h₁) hin
  obtain ⟨hr₂, ho₂⟩ := alike_of_within hw (halike L₂ h₂) hin
  exact ⟨hr₁.trans hr₂.symm, ho₁.trans ho₂.symm⟩

/-- Whether a filter stays within the first `n` bytes can be found out by running it. -/
def decideWithin (failfast : Bool) (n : Nat) : (p : ReadProg α) → (v : View) → Decidable (p.Within failfast n v)
  | .ret _ _, _ => isTrue trivial
  | .call c next, v =>
      match h : c.call.run failfast v with
      | .error _ => decidable_of_iff (c.handed v ≠ [] → v.pos + c.extent ≤ n) (by rw [Within, h]; simp)
      | .ok (answer, w) =>
          have := decideWithin failfast n (next answer) w
          decidable_of_iff ((c.handed v ≠ [] → v.pos + c.extent ≤ n) ∧ (next answer).Within failfast n w)
            (by rw [Within, h])

instance (p : ReadProg α) (v : View) : Decidable (p.Within failfast n v) := decideWithin failfast n p v

/-! ### Filters in sequence -/

theorem run_bind {v : View} {p : ReadProg α} {g : Bool → α → ReadProg β} :
    (p.bind g).prog.run failfast v =
      (p.prog.run failfast v >>= fun r => (g r.1 r.2.1).prog.run failfast r.2.2) := by
  induction p generalizing v with
  | ret ok a => rfl
  | call c next ih =>
      rw [bind, prog, prog, StreamProg.run, StreamProg.run]
      cases c.call.run failfast v with
      | error e => rfl
      | ok r => exact ih r.1

/-- A filter that reads leaves the buffer as it is. -/
theorem run_bytes {v w : View} {p : ReadProg α} {ok : Bool} {a : α} (hin : v.InBounds)
    (h : p.prog.run failfast v = .ok (ok, a, w)) : w = { v with pos := w.pos, handy := w.handy } := by
  induction p generalizing v with
  | ret ok' a' =>
      cases h
      rfl
  | call c next ih =>
      rw [prog, StreamProg.run, ReadCall.run_eq hin] at h
      cases hout : c.outcome failfast v.pos v.handy (c.handed v) with
      | error e =>
          rw [hout] at h
          cases h
      | ok r =>
          rw [hout] at h
          have hrest := ih r.1 (inBounds_outcome hin hout) h
          exact hrest

end ReadProg

end RpcMt
