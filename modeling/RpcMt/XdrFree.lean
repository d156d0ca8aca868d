import Mathlib.Data.List.Nodup
import RpcMt.XdrStreams

/-! A decode and the free that follows it. The free goes over the object that the decode has left, whole
or cut short at any point, and gives back each block once: where a filter returns FALSE it has already
given back what it owned, and what lies behind it in the object is still untouched. -/

namespace RpcMt

variable {σ : Type}

/-- A stream that answers every call, shortage being FALSE; the bytes it hands out are as many as were
asked for. -/
structure Answers (ops : XdrOps σ) (inv : σ → Prop) : Prop where
  getlong : ∀ s, inv s → ∃ l s', ops.getlong s = .ok (l, s') ∧ inv s'
  getbytes : ∀ len s, inv s → ∃ bs s', ops.getbytes len s = .ok (bs, s') ∧ inv s' ∧
    ∀ b, bs = some b → b.length = len
  getint32 : ∀ s, inv s → ∃ l s', ops.getint32 s = .ok (l, s') ∧ inv s'

/-- A memory stream within its buffer does, with `xdr_failfast` off. -/
theorem xdrmemOps_answers : Answers (xdrmemOps false) View.InBounds := by
  have hbytes : ∀ len v, View.InBounds v → ∃ bs v', xdrmemGetbytes false len v = .ok (bs, v') ∧
      v'.InBounds ∧ ∀ b, bs = some b → b.length = len := by
    intro len v hin
    unfold View.InBounds at hin
    unfold xdrmemGetbytes
    by_cases hshort : v.handy < len
    · rw [if_pos hshort]
      exact ⟨none, v, rfl, hin, fun b hb => by cases hb⟩
    · rw [if_neg hshort, if_neg (by omega)]
      refine ⟨_, _, rfl, ?_, ?_⟩
      · show v.pos + len + (v.handy - len) ≤ v.bytes.length
        omega
      · intro b hb
        cases hb
        rw [List.length_take, List.length_drop]
        omega
  have hword : ∀ v, View.InBounds v → ∃ l v', xdrmemGetlong false v = .ok (l, v') ∧ v'.InBounds := by
    intro v hin
    obtain ⟨bs, v', hget, hin', _⟩ := hbytes 4 v hin
    refine ⟨bs.map wordOf, v', ?_, hin'⟩
    rw [xdrmemGetlong, hget]
    rfl
  exact ⟨hword, hbytes, hword⟩

/-! ### The blocks that a decode has asked for -/

/-- From one state of a decode to a later one, in which these blocks have been handed out. -/
structure Grew (d d' : Decoding σ) (bs : List Block) : Prop where
  blocks : d'.blocks = d.blocks ++ bs
  le : d.calls ≤ d'.calls
  ids : ∀ b ∈ bs, d.calls ≤ b.id ∧ b.id < d'.calls
  nodup : bs.Nodup

namespace Grew

variable {d d' d'' : Decoding σ} {as bs : List Block}

theorem stream (d : Decoding σ) (s : σ) : Grew d { d with stream := s } [] :=
  ⟨(List.append_nil _).symm, le_refl _, fun _ hb => absurd hb List.not_mem_nil, List.nodup_nil⟩

theorem trans (h : Grew d d' as) (h' : Grew d' d'' bs) : Grew d d'' (as ++ bs) := by
  have hle := h.le
  have hle' := h'.le
  refine ⟨?_, by omega, ?_, ?_⟩
  · rw [h'.blocks, h.blocks, List.append_assoc]
  · intro b hb
    rcases List.mem_append.mp hb with hb | hb
    · have := h.ids b hb
      omega
    · have := h'.ids b hb
      omega
  · refine List.nodup_append.mpr ⟨h.nodup, h'.nodup, ?_⟩
    rintro a ha b hb rfl
    have hlt := (h.ids a ha).2
    have hge := (h'.ids a hb).1
    omega

theorem alloc (d : Decoding σ) (size : Nat) :
    Grew d { d with calls := d.calls + 1, blocks := d.blocks ++ [⟨d.calls, size⟩] } [⟨d.calls, size⟩] := by
  refine ⟨rfl, Nat.le_succ _, ?_, List.nodup_singleton _⟩
  intro b hb
  rw [List.mem_singleton.mp hb]
  exact ⟨le_refl _, Nat.lt_succ_self _⟩

theorem refused (d : Decoding σ) : Grew d { d with calls := d.calls + 1 } [] :=
  ⟨(List.append_nil _).symm, Nat.le_succ _, fun _ hb => absurd hb List.not_mem_nil, List.nodup_nil⟩

end Grew

/-- Freeing the object gives back these blocks, each once, and leaves no pointer; it returns TRUE where
the decode did. -/
def Frees (free : Obj → Res Freed) (ok : Bool) (o : Obj) (bs : List Block) : Prop :=
  ∃ ok' o' freed, free o = .ok (ok', o', freed) ∧ freed.Perm bs ∧ o'.blocks = [] ∧ (ok = true → ok' = true)

/-- A filter that has asked for the blocks `pre` before leaves the decode at an object whose freeing
gives back these and all that it has asked for since. -/
def Leaves (inv : σ → Prop) (free : Obj → Res Freed) (pre : List Block) (r : Res (Decoded σ))
    (d : Decoding σ) : Prop :=
  ∃ ok o d' bs, r = .ok (ok, o, d') ∧ inv d'.stream ∧ Grew d d' bs ∧ Frees free ok o (pre ++ bs)

/-- Whatever a decode into null pointers leaves, the free takes back. -/
def Balances (inv : σ → Prop) (decode : Decoding σ → Res (Decoded σ)) (free : Obj → Res Freed) : Prop :=
  ∀ d, inv d.stream → Leaves inv free [] (decode d) d

/-- Freeing untouched memory gives back nothing. -/
def Idle (free : Obj → Res Freed) : Prop := ∃ ok o, free .untouched = .ok (ok, o, []) ∧ o.blocks = []

theorem Frees.of_true {free : Obj → Res Freed} {ok : Bool} {o o' : Obj} {bs : List Block}
    (h : free o = .ok (true, o', bs)) (ho : o'.blocks = []) : Frees free ok o bs :=
  ⟨true, o', bs, h, .refl _, ho, fun _ => rfl⟩

theorem Idle.frees {free : Obj → Res Freed} (h : Idle free) : Frees free false .untouched [] := by
  obtain ⟨ok, o, hfree, ho⟩ := h
  exact ⟨ok, o, [], hfree, .refl _, ho, fun hfalse => by cases hfalse⟩

section Steps

variable {ops : XdrOps σ} {inv : σ → Prop} {env : XdrEnv} {free : Obj → Res Freed} {d : Decoding σ}
  {pre : List Block}

theorem Leaves.done {ok : Bool} {o : Obj} (hinv : inv d.stream) (hfree : Frees free ok o pre) :
    Leaves inv free pre (.ok (ok, o, d)) d := by
  refine ⟨ok, o, d, [], rfl, hinv, Grew.stream d d.stream, ?_⟩
  rw [List.append_nil]
  exact hfree

/-- What a filter leaves after an earlier step, in terms of where that step began. -/
theorem Leaves.after {d₁ : Decoding σ} {bs : List Block} {r : Res (Decoded σ)} (hgrew : Grew d d₁ bs)
    (h : Leaves inv free (pre ++ bs) r d₁) : Leaves inv free pre r d := by
  obtain ⟨ok, o, d', bs', hr, hinv, hgrew', hfree⟩ := h
  refine ⟨ok, o, d', bs ++ bs', hr, hinv, hgrew.trans hgrew', ?_⟩
  rw [← List.append_assoc]
  exact hfree

theorem Answers.getWord (h : Answers ops inv) (int32 : Bool) {s : σ} (hs : inv s) :
    ∃ l s', ops.getWord int32 s = .ok (l, s') ∧ inv s' := by
  cases int32 with
  | false => exact h.getlong s hs
  | true => exact h.getint32 s hs

theorem Answers.scalar (h : Answers ops inv) (k : XdrScalar) (hd : inv d.stream) :
    ∃ n s, d.scalar ops k = .ok (n, { d with stream := s }) ∧ inv s := by
  have hdecode : ∃ n s, k.decode ops d.stream = .ok (n, s) ∧ inv s := by
    cases k with
    | word int32 put get =>
        obtain ⟨l, s, hget, hs⟩ := h.getWord int32 hd
        refine ⟨l.map get, s, ?_, hs⟩
        rw [XdrScalar.decode, hget]
        rfl
    | hyper int32 put get =>
        obtain ⟨t1, s, hget, hs⟩ := h.getWord int32 hd
        cases t1 with
        | none =>
            refine ⟨none, s, ?_, hs⟩
            rw [XdrScalar.decode, hget]
            rfl
        | some t1 =>
            obtain ⟨t2, s', hget', hs'⟩ := h.getWord int32 hs
            refine ⟨t2.map (get t1), s', ?_, hs'⟩
            rw [XdrScalar.decode, hget]
            show (ops.getWord int32 s >>= _ : Res _) = _
            rw [hget']
            rfl
  obtain ⟨n, s, hk, hs⟩ := hdecode
  refine ⟨n, s, ?_, hs⟩
  rw [Decoding.scalar, hk]
  rfl

/-- A count that comes off the wire is a `u_int`. -/
theorem Answers.count (h : Answers ops inv) (hd : inv d.stream) :
    ∃ n s, d.scalar ops xdrUInt = .ok (n, { d with stream := s }) ∧ inv s ∧
      ∀ c, n = some c → c.toNat < uintRange := by
  obtain ⟨l, s, hget, hs⟩ := h.getlong d.stream hd
  refine ⟨l.map (castUint 32), s, ?_, hs, ?_⟩
  · show ((ops.getlong d.stream >>= _ : Res _) >>= _ : Res _) = _
    rw [hget]
    rfl
  · intro c hc
    obtain ⟨l', _, rfl⟩ := Option.map_eq_some_iff.mp hc
    unfold castUint uintRange
    omega

theorem Answers.octets (h : Answers ops inv) (cnt : Nat) (hd : inv d.stream) :
    ∃ ok bs s, d.octets ops cnt = .ok (ok, bs, { d with stream := s }) ∧ inv s ∧
      ∀ b, bs = some b → b.length = cnt := by
  have hdecode : ∃ ok bs s, xdrOpaqueDecode ops cnt d.stream = .ok (ok, bs, s) ∧ inv s ∧
      ∀ b, bs = some b → b.length = cnt := by
    unfold xdrOpaqueDecode
    split
    · rename_i hzero
      refine ⟨true, some [], d.stream, rfl, hd, ?_⟩
      intro b hb
      cases hb
      exact hzero.symm
    · obtain ⟨bs, s, hget, hs, hlen⟩ := h.getbytes cnt d.stream hd
      rw [hget]
      cases bs with
      | none => exact ⟨false, none, s, rfl, hs, fun b hb => by cases hb⟩
      | some bs =>
          show ∃ ok bs' s', (if rndup cnt = 0 then _ else _ : Res _) = _ ∧ _
          split
          · exact ⟨true, some bs, s, rfl, hs, hlen⟩
          · obtain ⟨crud, s', hget', hs', _⟩ := h.getbytes (rndup cnt) s hs
            rw [hget']
            exact ⟨crud.isSome, some bs, s', rfl, hs', hlen⟩
  obtain ⟨ok, bs, s, hoct, hs, hlen⟩ := hdecode
  refine ⟨ok, bs, s, ?_, hs, hlen⟩
  rw [Decoding.octets, hoct]
  rfl

/-- A filter that asks for a block goes on with it, or returns FALSE with its pointer still null. -/
theorem Leaves.withBlock (hff : env.failfast = false) {size : Nat} {o : Obj}
    {f : Block → Decoding σ → Res (Decoded σ)} (hinv : inv d.stream) (hnone : Frees free false o [])
    (hf : ∀ b d₁, inv d₁.stream → Leaves inv free [b] (f b d₁) d₁) :
    Leaves inv free [] (d.withBlock env size o f) d := by
  unfold Decoding.withBlock Decoding.alloc
  by_cases halloc : env.alloc d.calls = true
  · rw [if_pos halloc]
    refine Leaves.after (Grew.alloc d size) ?_
    rw [List.nil_append]
    exact hf _ _ hinv
  · rw [if_neg halloc]
    refine Leaves.after (Grew.refused d) ?_
    show Leaves inv free ([] ++ []) (xdrAbort env.failfast (false, o, _)) _
    rw [hff]
    exact Leaves.done hinv hnone

/-! ### Each filter -/

theorem strlen_terminated (bs : List Byte) : strlen (bs ++ [0]) ≤ bs.length := by
  induction bs with
  | nil => exact Nat.zero_le _
  | cons b bs ih =>
      unfold strlen at ih ⊢
      rw [List.cons_append, List.takeWhile_cons]
      split
      · exact Nat.succ_le_succ ih
      · exact Nat.zero_le _

theorem balances_bytes (h : Answers ops inv) (hff : env.failfast = false) (maxsize : Nat) :
    Balances inv (xdrBytesDecode ops env maxsize) xdrBytesFree := by
  intro d hd
  obtain ⟨n, s, hscalar, hs, _⟩ := h.count hd
  rw [xdrBytesDecode, hscalar]
  refine Leaves.after (Grew.stream d s) ?_
  cases n with
  | none => exact Leaves.done hs (.of_true rfl rfl)
  | some n =>
      show Leaves inv _ _ (if maxsize < n.toNat then _ else if n.toNat = 0 then _ else _) _
      have hnull : ∀ ok size, Frees xdrBytesFree ok (.bytes size none) [] :=
        fun _ _ => .of_true rfl rfl
      split
      · exact Leaves.done hs (hnull _ _)
      · split
        · exact Leaves.done hs (hnull _ _)
        · refine Leaves.withBlock hff hs (hnull _ _) ?_
          intro b d₁ hd₁
          obtain ⟨ok, bs, s₁, hoct, hs₁, _⟩ := h.octets n.toNat hd₁
          rw [hoct]
          refine Leaves.after (Grew.stream d₁ s₁) ?_
          exact Leaves.done hs₁ (.of_true rfl rfl)

theorem balances_string (h : Answers ops inv) (hff : env.failfast = false) (maxsize : Nat) :
    Balances inv (xdrStringDecode ops env maxsize) (xdrStringFree maxsize) := by
  intro d hd
  obtain ⟨n, s, hscalar, hs, hcount⟩ := h.count hd
  rw [xdrStringDecode, hscalar]
  refine Leaves.after (Grew.stream d s) ?_
  have hnull : ∀ ok, Frees (xdrStringFree maxsize) ok .untouched [] :=
    fun _ => .of_true rfl rfl
  cases n with
  | none => exact Leaves.done hs (hnull _)
  | some n =>
      have hlt := hcount n rfl
      show Leaves inv _ _ (if maxsize < n.toNat then _ else if (n.toNat + 1) % uintRange = 0 then _ else _) _
      split
      · exact Leaves.done hs (hnull _)
      · rename_i hmax
        split
        · exact Leaves.done hs (hnull _)
        · rename_i hwrap
          refine Leaves.withBlock hff hs (.of_true rfl rfl) ?_
          intro b d₁ hd₁
          obtain ⟨ok, bs, s₁, hoct, hs₁, hlen⟩ := h.octets n.toNat hd₁
          rw [hoct]
          refine Leaves.after (Grew.stream d₁ s₁) ?_
          -- `sp[size]` is zero before the bytes are read, so the free finds a string that is no longer.
          have hsize : (bs.getD (env.fresh b n.toNat)).length = n.toNat := by
            cases bs with
            | none => exact (List.length_map ..).trans List.length_range
            | some bs => exact hlen bs rfl
          have hstr := strlen_terminated (bs.getD (env.fresh b n.toNat))
          rw [hsize] at hstr
          have hfit := succ_lt_uintRange hlt hwrap
          have hnone : (Obj.string none).blocks = [] := rfl
          refine Leaves.done hs₁ (Frees.of_true ?_ hnone)
          show (if maxsize < strlen _ % uintRange then _ else if (strlen _ % uintRange + 1) % uintRange = 0
            then _ else _ : Res Freed) = _
          rw [Nat.mod_eq_of_lt (by omega), if_neg (by omega), Nat.mod_eq_of_lt (by omega), if_neg (by omega)]
          rfl

theorem blocksAll_untouched (n : Nat) : Obj.blocksAll (List.replicate n .untouched) = [] := by
  induction n with
  | zero => rfl
  | succ n ih =>
      rw [List.replicate_succ, Obj.blocksAll, ih]
      rfl

theorem freeAll_untouched (hidle : Idle free) (n : Nat) :
    ∃ ok os, freeAll free (List.replicate n .untouched) = .ok (ok, os, []) ∧ Obj.blocksAll os = [] := by
  obtain ⟨ok, o, hfree, ho⟩ := hidle
  induction n with
  | zero => exact ⟨true, [], rfl, rfl⟩
  | succ n ih =>
      obtain ⟨ok', os, hall, hos⟩ := ih
      rw [List.replicate_succ, freeAll, hfree]
      cases ok with
      | true =>
          refine ⟨ok', o :: os, ?_, ?_⟩
          · show (freeAll free (List.replicate n .untouched) >>= _ : Res _) = _
            rw [hall]
            rfl
          · rw [Obj.blocksAll, ho, hos]
            rfl
      | false =>
          refine ⟨false, o :: List.replicate n .untouched, rfl, ?_⟩
          rw [Obj.blocksAll, ho, blocksAll_untouched]
          rfl

/-- Freeing the elements gives back these blocks, each once, and leaves no pointer in them. -/
def FreesAll (free : Obj → Res Freed) (ok : Bool) (os : List Obj) (bs : List Block) : Prop :=
  ∃ ok' os' freed, freeAll free os = .ok (ok', os', freed) ∧ freed.Perm bs ∧ Obj.blocksAll os' = [] ∧
    (ok = true → ok' = true)

theorem Balances.all {f : Decoding σ → Res (Decoded σ)} (h : Balances inv f free) (hidle : Idle free)
    (n : Nat) (d : Decoding σ) (hd : inv d.stream) :
    ∃ ok os d' bs, decodeAll f n d = .ok (ok, os, d') ∧ inv d'.stream ∧ Grew d d' bs ∧
      FreesAll free ok os bs := by
  induction n generalizing d with
  | zero => exact ⟨true, [], d, [], rfl, hd, Grew.stream d d.stream, true, [], [], rfl, .refl _, rfl, fun _ => rfl⟩
  | succ n ih =>
      obtain ⟨ok, o, d₁, bs, hf, hd₁, hgrew, ok', o', freed, hfree, hperm, ho', hok⟩ := h d hd
      rw [List.nil_append] at hperm
      cases ok with
      | false =>
          -- The elements behind the one that failed have not been touched.
          obtain ⟨okz, osz, hall, hosz⟩ := freeAll_untouched hidle n
          refine ⟨false, o :: List.replicate n .untouched, d₁, bs, ?_, hd₁, hgrew, ?_⟩
          · rw [decodeAll, hf]
            rfl
          · cases ok' with
            | false =>
                refine ⟨false, o' :: List.replicate n .untouched, freed, ?_, hperm, ?_, fun hfalse => by cases hfalse⟩
                · rw [freeAll, hfree]
                  rfl
                · rw [Obj.blocksAll, ho', blocksAll_untouched]
                  rfl
            | true =>
                refine ⟨okz, o' :: osz, freed ++ [], ?_, ?_, ?_, fun hfalse => by cases hfalse⟩
                · rw [freeAll, hfree]
                  show (freeAll free (List.replicate n .untouched) >>= _ : Res _) = _
                  rw [hall]
                  rfl
                · rw [List.append_nil]
                  exact hperm
                · rw [Obj.blocksAll, ho', hosz]
                  rfl
      | true =>
          obtain ⟨ok₂, os, d₂, bs₂, hall, hd₂, hgrew₂, ok₂', os', freed₂, hfree₂, hperm₂, hos', hok₂⟩ := ih d₁ hd₁
          have hok' : ok' = true := hok rfl
          subst hok'
          refine ⟨ok₂, o :: os, d₂, bs ++ bs₂, ?_, hd₂, hgrew.trans hgrew₂, ok₂', o' :: os',
            freed ++ freed₂, ?_, hperm.append hperm₂, ?_, hok₂⟩
          · rw [decodeAll, hf]
            show (decodeAll f n d₁ >>= _ : Res _) = _
            rw [hall]
            rfl
          · rw [freeAll, hfree]
            show (freeAll free os >>= _ : Res _) = _
            rw [hfree₂]
            rfl
          · rw [Obj.blocksAll, ho', hos']
            rfl

theorem balances_array (h : Answers ops inv) (hff : env.failfast = false) (maxsize : Nat)
    (elsize : ElSize) {f : Decoding σ → Res (Decoded σ)} (hf : Balances inv f free) (hidle : Idle free) :
    Balances inv (xdrArrayDecode ops env maxsize elsize f) (xdrArrayFree free) := by
  intro d hd
  obtain ⟨n, s, hscalar, hs, _⟩ := h.count hd
  rw [xdrArrayDecode, hscalar]
  refine Leaves.after (Grew.stream d s) ?_
  cases n with
  | none => exact Leaves.done hs (.of_true rfl rfl)
  | some n =>
      show Leaves inv _ _ (if maxsize < n.toNat ∨ uintMax / elsize.val.toNat < n.toNat then _
        else if n.toNat = 0 then _ else _) _
      have hnull : ∀ ok size, Frees (xdrArrayFree free) ok (.array size none []) [] :=
        fun _ _ => .of_true rfl rfl
      split
      · exact Leaves.done hs (hnull _ _)
      · split
        · exact Leaves.done hs (hnull _ _)
        · refine Leaves.withBlock hff hs (hnull _ _) ?_
          intro b d₁ hd₁
          obtain ⟨ok, os, d₂, bs, hall, hd₂, hgrew, ok', os', freed, hfree, hperm, _, hok⟩ :=
            hf.all hidle n.toNat d₁ hd₁
          rw [hall]
          refine ⟨ok, _, d₂, bs, rfl, hd₂, hgrew, ok', .array n.toNat none [], freed ++ [b], ?_, ?_, rfl, hok⟩
          · rw [xdrArrayFree, hfree]
            rfl
          · exact (List.perm_append_comm).trans ((List.Perm.refl [b]).append hperm)

theorem balances_reference (hff : env.failfast = false) (size : Nat)
    {f : Decoding σ → Res (Decoded σ)} (hf : Balances inv f free) :
    Balances inv (xdrReferenceDecode env size f) (xdrReferenceFree free) := by
  intro d hd
  refine Leaves.withBlock hff hd (.of_true rfl rfl) ?_
  intro b d₁ hd₁
  obtain ⟨ok, o, d₂, bs, hdec, hd₂, hgrew, ok', o', freed, hfree, hperm, _, hok⟩ := hf d₁ hd₁
  rw [hdec]
  refine ⟨ok, _, d₂, bs, rfl, hd₂, hgrew, ok', .ptr none .untouched, freed ++ [b], ?_, ?_, rfl, hok⟩
  · rw [xdrReferenceFree, hfree]
    rfl
  · exact (List.perm_append_comm).trans ((List.Perm.refl [b]).append hperm)

end Steps

/-! ### Every type -/

mutual
theorem Ty.idle : (ty : Ty) → Idle ty.free
  | .void => ⟨true, .untouched, rfl, rfl⟩
  | .scalar _ => ⟨true, .untouched, rfl, rfl⟩
  | .opaqueData _ => ⟨true, .untouched, rfl, rfl⟩
  | .bytes _ => ⟨true, .untouched, rfl, rfl⟩
  | .string _ => ⟨true, .untouched, rfl, rfl⟩
  | .array _ _ _ => ⟨true, .untouched, rfl, rfl⟩
  | .vector nelem elem => by
      obtain ⟨ok, os, hall, hos⟩ := freeAll_untouched elem.idle nelem.toNat
      refine ⟨ok, .vector os, ?_, hos⟩
      show (freeAll elem.free (List.replicate nelem.toNat .untouched) >>= _ : Res _) = _
      rw [hall]
      rfl
  | .union choices => by
      obtain ⟨ok, o, hfree, ho⟩ := choices.idle 0
      refine ⟨ok, .union 0 o, ?_, ho⟩
      show (choices.free 0 .untouched >>= _ : Res _) = _
      rw [hfree]
      rfl
  | .reference _ _ => ⟨true, .untouched, rfl, rfl⟩
  | .pointer _ _ => ⟨true, .untouched, rfl, rfl⟩
  | .pair a b => by
      obtain ⟨ok, o, hfree, ho⟩ := a.idle
      obtain ⟨ok', o', hfree', ho'⟩ := b.idle
      cases ok with
      | false =>
          refine ⟨false, .pair o .untouched, ?_, ?_⟩
          · show (a.free .untouched >>= _ : Res _) = _
            rw [hfree]
            rfl
          · rw [Obj.blocks, ho]
            rfl
      | true =>
          refine ⟨ok', .pair o o', ?_, ?_⟩
          · show (a.free .untouched >>= _ : Res _) = _
            rw [hfree]
            show (b.free .untouched >>= _ : Res _) = _
            rw [hfree']
            rfl
          · rw [Obj.blocks, ho, ho']
            rfl

theorem Choices.idle : (choices : Choices) → (d : Int) → Idle (choices.free d)
  | .null, _ => ⟨false, .untouched, rfl, rfl⟩
  | .dfault proc, _ => proc.idle
  | .choice value proc rest, d => by
      unfold Idle Choices.free
      split
      · exact proc.idle
      · exact rest.idle d
end

section Types

variable {ops : XdrOps σ} {inv : σ → Prop} {env : XdrEnv}

mutual
/-- Whatever type is decoded, and wherever the decode stops, the free takes back what it has left. -/
theorem Ty.balances (h : Answers ops inv) (hff : env.failfast = false) : (ty : Ty) →
    Balances inv (ty.decode ops env) ty.free
  | .void => fun d hd => Leaves.done hd (.of_true rfl rfl)
  | .scalar k => by
      intro d hd
      obtain ⟨n, s, hscalar, hs⟩ := h.scalar k.filter hd
      rw [Ty.decode, hscalar]
      refine Leaves.after (Grew.stream d s) ?_
      cases n with
      | none => exact Leaves.done hs (.of_true rfl rfl)
      | some n => exact Leaves.done hs (.of_true rfl rfl)
  | .opaqueData cnt => by
      intro d hd
      obtain ⟨ok, bs, s, hoct, hs, _⟩ := h.octets cnt.toNat hd
      rw [Ty.decode, hoct]
      refine Leaves.after (Grew.stream d s) ?_
      cases bs with
      | none => exact Leaves.done hs (.of_true rfl rfl)
      | some bs => exact Leaves.done hs (.of_true rfl rfl)
  | .bytes maxsize => balances_bytes h hff maxsize.toNat
  | .string maxsize => balances_string h hff maxsize.toNat
  | .array maxsize elsize elem => balances_array h hff maxsize.toNat elsize (elem.balances h hff) elem.idle
  | .vector nelem elem => by
      intro d hd
      obtain ⟨ok, os, d', bs, hall, hd', hgrew, ok', os', freed, hfree, hperm, hos', hok⟩ :=
        (elem.balances h hff).all elem.idle nelem.toNat d hd
      rw [Ty.decode, hall]
      refine ⟨ok, _, d', bs, rfl, hd', hgrew, ok', .vector os', freed, ?_, hperm, hos', hok⟩
      show (freeAll elem.free os >>= _ : Res _) = _
      rw [hfree]
      rfl
  | .union choices => by
      intro d hd
      obtain ⟨n, s, hscalar, hs⟩ := h.scalar xdrEnum hd
      rw [Ty.decode, hscalar]
      refine Leaves.after (Grew.stream d s) ?_
      cases n with
      | none => exact Leaves.done hs (Ty.union choices).idle.frees
      | some dscm =>
          obtain ⟨ok, o, d', bs, hdec, hd', hgrew, ok', o', freed, hfree, hperm, ho', hok⟩ :=
            choices.balances h hff dscm { d with stream := s } hs
          show Leaves inv _ _ (choices.decode ops env dscm { d with stream := s } >>= _) _
          rw [hdec]
          refine ⟨ok, _, d', bs, rfl, hd', hgrew, ok', .union dscm o', freed, ?_, hperm, ho', hok⟩
          show (choices.free dscm o >>= _ : Res _) = _
          rw [hfree]
          rfl
  | .reference size target => balances_reference hff size.toNat (target.balances h hff)
  | .pointer size target => by
      intro d hd
      obtain ⟨n, s, hscalar, hs⟩ := h.scalar xdrBool hd
      rw [Ty.decode, hscalar]
      refine Leaves.after (Grew.stream d s) ?_
      cases n with
      | none => exact Leaves.done hs (.of_true rfl rfl)
      | some more =>
          show Leaves inv _ _ (if more = 0 then _ else _) _
          split
          · exact Leaves.done hs (.of_true rfl rfl)
          · exact balances_reference hff size.toNat (target.balances h hff) _ hs
  | .pair a b => by
      intro d hd
      obtain ⟨ok, o, d₁, bs, hdec, hd₁, hgrew, ok', o', freed, hfree, hperm, ho', hok⟩ := a.balances h hff d hd
      rw [Ty.decode, hdec]
      cases ok with
      | false =>
          -- The second member is untouched, whether or not the free gets to it.
          refine ⟨false, .pair o .untouched, d₁, bs, rfl, hd₁, hgrew, ?_⟩
          cases ok' with
          | false =>
              refine ⟨false, .pair o' .untouched, freed, ?_, hperm, ?_, fun hfalse => by cases hfalse⟩
              · show (a.free o >>= _ : Res _) = _
                rw [hfree]
                rfl
              · rw [Obj.blocks, ho']
                rfl
          | true =>
              obtain ⟨okz, oz, hidle, hoz⟩ := b.idle
              refine ⟨okz, .pair o' oz, freed ++ [], ?_, ?_, ?_, fun hfalse => by cases hfalse⟩
              · show (a.free o >>= _ : Res _) = _
                rw [hfree]
                show (b.free .untouched >>= _ : Res _) = _
                rw [hidle]
                rfl
              · rw [List.append_nil]
                exact hperm
              · rw [Obj.blocks, ho', hoz]
                rfl
      | true =>
          obtain ⟨ok₂, o₂, d₂, bs₂, hdec₂, hd₂, hgrew₂, ok₂', o₂', freed₂, hfree₂, hperm₂, ho₂', hok₂⟩ :=
            b.balances h hff d₁ hd₁
          have hok' : ok' = true := hok rfl
          subst hok'
          show Leaves inv _ _ (b.decode ops env d₁ >>= _) _
          rw [hdec₂]
          refine ⟨ok₂, .pair o o₂, d₂, bs ++ bs₂, rfl, hd₂, hgrew.trans hgrew₂, ok₂', .pair o' o₂',
            freed ++ freed₂, ?_, hperm.append hperm₂, ?_, hok₂⟩
          · show (a.free o >>= _ : Res _) = _
            rw [hfree]
            show (b.free o₂ >>= _ : Res _) = _
            rw [hfree₂]
            rfl
          · rw [Obj.blocks, ho', ho₂']
            rfl

theorem Choices.balances (h : Answers ops inv) (hff : env.failfast = false) : (choices : Choices) →
    (d : Int) → Balances inv (choices.decode ops env d) (choices.free d)
  | .null, _ => fun d hd => Leaves.done hd ⟨false, _, [], rfl, .refl _, rfl, fun hfalse => by cases hfalse⟩
  | .dfault proc, _ => proc.balances h hff
  | .choice value proc rest, d => by
      intro s hs
      unfold Choices.decode
      by_cases hd : value = d
      · rw [if_pos hd]
        have hfree : (Choices.choice value proc rest).free d = proc.free := by
          funext o
          rw [Choices.free, if_pos hd]
        rw [hfree]
        exact proc.balances h hff s hs
      · rw [if_neg hd]
        have hfree : (Choices.choice value proc rest).free d = rest.free d := by
          funext o
          rw [Choices.free, if_neg hd]
        rw [hfree]
        exact rest.balances h hff d s hs
end

/-- On every stream that reports shortage by returning FALSE, for every type: decoding into an all-zero
object returns, and freeing what it leaves, whether it succeeded or failed, gives back exactly the blocks
it allocated, each once, and leaves every pointer null. -/
theorem decode_free_balance (h : Answers ops inv) (hff : env.failfast = false) (ty : Ty) {s : σ}
    (hs : inv s) : ∃ ok o d, ty.decode ops env ⟨s, 0, []⟩ = .ok (ok, o, d) ∧ d.blocks.Nodup ∧
      ∃ ok' o' freed, ty.free o = .ok (ok', o', freed) ∧ freed.Perm d.blocks ∧ o'.blocks = [] := by
  obtain ⟨ok, o, d, bs, hdec, _, hgrew, ok', o', freed, hfree, hperm, ho', _⟩ :=
    ty.balances h hff ⟨s, 0, []⟩ hs
  have hblocks : d.blocks = bs := hgrew.blocks
  refine ⟨ok, o, d, hdec, ?_, ok', o', freed, hfree, ?_, ho'⟩
  · rw [hblocks]
    exact hgrew.nodup
  · rw [hblocks]
    exact hperm

end Types

/-- Two optional numbers, of which the second is cut off: three blocks have been allocated when the
decode fails, and three are given back. -/
theorem decode_free_balance_cut : ∃ o d ok' o' freed,
    (Ty.array 4 ⟨8, by decide⟩ (.pointer 4 (.scalar .int))).decode (xdrmemOps false)
      ⟨false, fun _ => true, fun _ _ => 0⟩
      ⟨⟨.decode, [0, 0, 0, 2, 0, 0, 0, 1, 0, 0, 0, 7, 0, 0, 0, 1], 0, 16⟩, 0, []⟩ = .ok (false, o, d) ∧
    (Ty.array 4 ⟨8, by decide⟩ (.pointer 4 (.scalar .int))).free o = .ok (ok', o', freed) ∧
    freed.length = 3 ∧ o'.blocks = [] := by
  have hin : View.InBounds ⟨.decode, [0, 0, 0, 2, 0, 0, 0, 1, 0, 0, 0, 7, 0, 0, 0, 1], 0, 16⟩ := by
    unfold View.InBounds
    decide
  obtain ⟨ok, o, d, hdec, _, ok', o', freed, hfree, hperm, ho'⟩ :=
    @decode_free_balance _ _ _ ⟨false, fun _ => true, fun _ _ => 0⟩ xdrmemOps_answers rfl
      (.array 4 ⟨8, by decide⟩ (.pointer 4 (.scalar .int))) _ hin
  have hrun : ((Ty.array 4 ⟨8, by decide⟩ (.pointer 4 (.scalar .int))).decode (xdrmemOps false)
      ⟨false, fun _ => true, fun _ _ => 0⟩
      ⟨⟨.decode, [0, 0, 0, 2, 0, 0, 0, 1, 0, 0, 0, 7, 0, 0, 0, 1], 0, 16⟩, 0, []⟩).toOption.map
        (fun r => (r.1, r.2.2.blocks.length)) = some (false, 3) := by decide +kernel
  rw [hdec] at hrun
  obtain ⟨hok, hlen⟩ := Prod.mk.inj (Option.some.inj hrun)
  cases hok
  exact ⟨o, d, ok', o', freed, hdec, hfree, hperm.length_eq.trans hlen, ho'⟩

end RpcMt
