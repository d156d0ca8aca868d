import RpcMt.RecEncode
import RpcMt.RecReader
import RpcMt.XdrWire

/-! The operations of a record stream, and encoding through them. Bytes that are put in several calls make the
stream that they make in one call: where a fragment is cut depends on the bytes before it alone. So a filter
that encodes to a record stream does what one call of `xdrrec_putbytes` with the whole external form does. -/

namespace RpcMt.XdrRec

section Ops

variable {σ α : Type}

/-- An operation on the outgoing half of a `RECSTREAM`, beside the incoming one. -/
def onOut (t : Stream σ) (r : Res (Bool × OutStream)) : Res (Bool × OutStream × Stream σ) := do
  let (ok, s) ← r
  pure (ok, s, t)

/-- An operation on the incoming half, beside the outgoing one. -/
def onIn (s : OutStream) : Option (α × Stream σ) → Res (α × OutStream × Stream σ)
  | none => .error .noReturn
  | some (a, t) => .ok (a, s, t)

/-- `xdrrec_ops`. -/
def xdrrecOps (writeit : Writeit) (readit : Readit σ) : XdrOps (OutStream × Stream σ) where
  getlong x := onIn x.1 (xdrrecGetlong readit x.2)
  putlong l x := onOut x.2 (xdrrecPutlong writeit l x.1)
  getbytes len x := onIn x.1 (xdrrecGetbytes readit x.2 len)
  putbytes bs x := onOut x.2 (xdrrecPutbytes writeit bs x.1)
  getint32 x := onIn x.1 ((xdrrecGetint32 readit x.2).map fun p => (p.1.map fun n : Nat => castInt 32 n, p.2))
  putint32 l x := onOut x.2 (xdrrecPutint32 writeit l x.1)

end Ops

/-! ### Cutting what is put into calls -/

theorem overwrite_append {buf xs ys : List Byte} {pos : Nat} (h : pos + xs.length ≤ buf.length) :
    overwrite (overwrite buf pos xs) (pos + xs.length) ys = overwrite buf pos (xs ++ ys) := by
  have hdrop : (overwrite buf pos xs).drop (pos + xs.length + ys.length) =
      buf.drop (pos + (xs ++ ys).length) := by
    calc (overwrite buf pos xs).drop (pos + xs.length + ys.length)
      _ = ((overwrite buf pos xs).drop (pos + xs.length)).drop ys.length := by rw [List.drop_drop]
      _ = (buf.drop (pos + xs.length)).drop ys.length := by rw [drop_overwrite h]
      _ = buf.drop (pos + (xs ++ ys).length) := by rw [List.drop_drop, List.length_append, Nat.add_assoc]
  rw [overwrite, take_overwrite h, hdrop, overwrite, List.append_assoc _ xs ys]

/-- The pointers lie in the buffer, in their order. -/
structure Pointers (s : OutStream) : Prop where
  size : s.buf.length = s.outBoundry
  least : 8 ≤ s.outBoundry
  started : s.fragHeader + 4 ≤ s.outFinger
  finger : s.outFinger ≤ s.outBoundry

theorem Bounds.pointers {s : OutStream} (h : Bounds s) : Pointers s := ⟨h.size, h.least, h.started, h.finger⟩

/-- The stream when bytes for which there is room have been stored at the finger. -/
def putHere (bs : List Byte) (s : OutStream) : OutStream :=
  { s with buf := overwrite s.buf s.outFinger bs, outFinger := s.outFinger + bs.length }

namespace Pointers

variable {s : OutStream} (h : Pointers s) {bs : List Byte}

include h

theorem stores (hroom : s.outFinger + bs.length ≤ s.outBoundry) :
    store s.outFinger bs s = .ok { s with buf := overwrite s.buf s.outFinger bs } :=
  store_eq (by rw [h.size]; exact hroom) rfl

theorem put (hroom : s.outFinger + bs.length ≤ s.outBoundry) : Pointers (putHere bs s) where
  size := (length_overwrite (by rw [h.size]; exact hroom)).trans h.size
  least := h.least
  started := Nat.le_trans h.started (Nat.le_add_right _ _)
  finger := hroom

theorem sent (b : Bool) : Pointers { s with fragSent := b } := ⟨h.size, h.least, h.started, h.finger⟩

/-- `flush_out` returns, and unless `writeit` has failed the buffer is empty. -/
theorem flush (writeit : Writeit) (eor : Bool) :
    ∃ ok s', flushOut writeit eor s = .ok (ok, s') ∧ Pointers s' ∧ (ok = true → s'.outFinger = 4) := by
  obtain ⟨hsize, hleast, hstarted, hfinger⟩ := h
  obtain ⟨word, hword⟩ : ∃ w, w = htonl (s.outFinger - s.fragHeader - 4 ||| if eor then 2 ^ 31 else 0) := ⟨_, rfl⟩
  have hroom : s.fragHeader + word.length ≤ s.buf.length := by
    rw [hword]
    show s.fragHeader + 4 ≤ _
    omega
  have hlen : (overwrite s.buf s.fragHeader word).length = s.outBoundry := (length_overwrite hroom).trans hsize
  unfold flushOut
  dsimp only
  rw [← hword, store_eq hroom rfl]
  dsimp only [bind, Except.bind]
  split
  · exact ⟨false, _, rfl, ⟨hlen, hleast, hstarted, hfinger⟩, fun hok => absurd hok Bool.false_ne_true⟩
  · refine ⟨true, _, rfl, ⟨hlen, hleast, Nat.le_refl 4, ?_⟩, fun _ => rfl⟩
    show 4 ≤ s.outBoundry
    omega

end Pointers

theorem andThen_done (r : Res (Bool × OutStream)) : andThen r (fun s => .ok (true, s)) = r := by
  cases r with
  | error e => rfl
  | ok p =>
      obtain ⟨ok, s⟩ := p
      cases ok with
      | false => rfl
      | true => rfl

section Cuts

variable {writeit : Writeit} {s : OutStream} {addr as bs : List Byte}

/-- The bytes that have room, and the stream when they have been stored. -/
def room (s : OutStream) (addr : List Byte) : Nat := min addr.length (s.outBoundry - s.outFinger)

theorem Pointers.filled (h : Pointers s) (addr : List Byte) :
    s.outFinger + (addr.take (room s addr)).length ≤ s.outBoundry := by
  have hfinger := h.finger
  unfold room
  rw [List.length_take]
  omega

theorem length_take_room : (addr.take (room s addr)).length = room s addr := by
  unfold room
  rw [List.length_take]
  omega

/-- Bytes are left over only if the buffer is full. -/
theorem Pointers.full (h : Pointers s) (hleft : addr.drop (room s addr) ≠ []) :
    s.outFinger + room s addr = s.outBoundry := by
  have hfinger := h.finger
  have hlt : room s addr < addr.length := by
    by_contra hle
    exact hleft (List.drop_eq_nil_of_le (Nat.le_of_not_lt hle))
  unfold room at hlt ⊢
  omega

/-- A turn of the loop of `xdrrec_putbytes`. -/
theorem Pointers.turn (h : Pointers s) {turns : Nat} (hne : addr ≠ []) :
    putbytesLoop writeit (turns + 1) addr s =
      if addr.drop (room s addr) = [] then
        putbytesLoop writeit turns [] (putHere (addr.take (room s addr)) s)
      else andThen (flushOut writeit false { putHere (addr.take (room s addr)) s with fragSent := true })
        (putbytesLoop writeit turns (addr.drop (room s addr))) := by
  have hlen : (addr.take (room s addr)).length = room s addr := length_take_room
  have hput : { s with buf := overwrite s.buf s.outFinger (addr.take (room s addr)), outFinger := s.outFinger + room s addr } =
      putHere (addr.take (room s addr)) s := by
    rw [putHere, hlen]
  have hstore := h.stores (h.filled addr)
  rw [putbytesLoop, if_neg hne]
  dsimp only
  unfold room at hstore hput ⊢
  rw [hstore]
  dsimp only [bind, Except.bind]
  by_cases hleft : addr.drop (min addr.length (s.outBoundry - s.outFinger)) = []
  · rw [if_pos hleft, if_neg (fun hsend => hsend.2 hleft), hleft, hput]
  · rw [if_neg hleft, if_pos ⟨h.full hleft, hleft⟩, ← hput]
    rfl

/-- The turns a loop takes at least: one for each byte and one for a buffer that is full to begin with. -/
def needed (s : OutStream) (addr : List Byte) : Nat := addr.length + if s.outFinger = s.outBoundry then 1 else 0

/-- A turn that leaves bytes over and is followed by a flush makes the loop shorter. -/
theorem Pointers.needed_lt (h : Pointers s) {s' : OutStream} (h' : Pointers s') (hempty : s'.outFinger = 4)
    (hleft : addr.drop (room s addr) ≠ []) : needed s' (addr.drop (room s addr)) < needed s addr := by
  have hfull := h.full hleft
  have hleast := h'.least
  have hlt : ¬addr.length ≤ room s addr := fun hle => hleft (List.drop_eq_nil_of_le hle)
  unfold needed
  rw [List.length_drop, if_neg (by omega)]
  split
  · omega
  · omega

theorem putbytesLoop_nil (turns : Nat) : putbytesLoop writeit (turns + 1) [] s = .ok (true, s) := rfl

/-- Turns enough are enough. -/
theorem Pointers.turns (h : Pointers s) {m n : Nat} (hm : needed s addr < m) (hn : needed s addr < n) :
    putbytesLoop writeit m addr s = putbytesLoop writeit n addr s := by
  induction m generalizing n addr s with
  | zero => exact absurd hm (Nat.not_lt_zero _)
  | succ m ih =>
      obtain ⟨n, rfl⟩ := Nat.exists_eq_succ_of_ne_zero (Nat.ne_of_gt (Nat.lt_of_le_of_lt (Nat.zero_le _) hn))
      by_cases hnil : addr = []
      · rw [hnil, Nat.succ_eq_add_one, putbytesLoop_nil, putbytesLoop_nil]
      · have hpos : 0 < addr.length := List.length_pos_iff.mpr hnil
        rw [Nat.succ_eq_add_one, h.turn hnil, h.turn hnil]
        by_cases hleft : addr.drop (room s addr) = []
        · have hadd : addr.length ≤ needed s addr := Nat.le_add_right _ _
          obtain ⟨m, rfl⟩ := Nat.exists_eq_succ_of_ne_zero (show m ≠ 0 by omega)
          obtain ⟨n, rfl⟩ := Nat.exists_eq_succ_of_ne_zero (show n ≠ 0 by omega)
          rw [if_pos hleft, if_pos hleft]
          rfl
        · rw [if_neg hleft, if_neg hleft]
          obtain ⟨ok, s', hflush, hs', hempty⟩ := ((h.put (h.filled addr)).sent true).flush writeit false
          rw [hflush]
          cases ok with
          | false => rfl
          | true =>
              have hlt := h.needed_lt hs' (hempty rfl) hleft
              exact ih hs' (by omega) (by omega)

/-- `xdrrec_putbytes`, one turn at a time. -/
theorem Pointers.putbytes (h : Pointers s) (hne : addr ≠ []) :
    xdrrecPutbytes writeit addr s =
      if addr.drop (room s addr) = [] then .ok (true, putHere (addr.take (room s addr)) s)
      else andThen (flushOut writeit false { putHere (addr.take (room s addr)) s with fragSent := true })
        (xdrrecPutbytes writeit (addr.drop (room s addr))) := by
  unfold xdrrecPutbytes
  rw [h.turn hne]
  by_cases hleft : addr.drop (room s addr) = []
  · rw [if_pos hleft, if_pos hleft]
    rfl
  · rw [if_neg hleft, if_neg hleft]
    obtain ⟨ok, s', hflush, hs', hempty⟩ := ((h.put (h.filled addr)).sent true).flush writeit false
    rw [hflush]
    cases ok with
    | false => rfl
    | true =>
        have hfull : ¬s'.outFinger = s'.outBoundry := by
          have hleast := hs'.least
          rw [hempty rfl]
          omega
        have hlen := List.length_drop (l := addr) (i := room s addr)
        refine hs'.turns ?_ ?_
        · unfold needed
          rw [if_neg hfull]
          omega
        · unfold needed
          rw [if_neg hfull]
          omega

theorem putHere_append {xs ys : List Byte} (h : Pointers s) (hroom : s.outFinger + xs.length ≤ s.outBoundry) :
    putHere (xs ++ ys) s = putHere ys (putHere xs s) := by
  have hbuf : overwrite (overwrite s.buf s.outFinger xs) (s.outFinger + xs.length) ys =
      overwrite s.buf s.outFinger (xs ++ ys) := overwrite_append (by rw [h.size]; exact hroom)
  unfold putHere
  dsimp only
  rw [hbuf, List.length_append, Nat.add_assoc]

/-- Bytes put in two calls are put in one. -/
theorem Pointers.putbytes_append (h : Pointers s) (as bs : List Byte) :
    xdrrecPutbytes writeit (as ++ bs) s = andThen (xdrrecPutbytes writeit as s) (xdrrecPutbytes writeit bs) := by
  by_cases has : as = []
  · rw [has]
    rfl
  by_cases hbs : bs = []
  · rw [hbs, List.append_nil]
    exact (andThen_done _).symm
  have hne : as ++ bs ≠ [] := List.append_ne_nil_of_left_ne_nil has bs
  induction hn : needed s as using Nat.strong_induction_on generalizing s as with
  | _ n ih =>
      rw [h.putbytes has, h.putbytes hne]
      by_cases hleft : as.drop (room s as) = []
      · -- the first bytes all have room: the others start behind them
        have hall : as.length ≤ room s as := List.drop_eq_nil_iff.mp hleft
        have htake : as.take (room s as) = as := List.take_of_length_le hall
        have hroom : s.outFinger + as.length ≤ s.outBoundry := by
          have hfilled := h.filled as
          rw [htake] at hfilled
          exact hfilled
        have hrest : room s (as ++ bs) = as.length + room (putHere as s) bs := by
          unfold room putHere
          rw [List.length_append]
          dsimp only
          omega
        rw [if_pos hleft, htake, hrest, List.take_length_add_append, List.drop_length_add_append,
          putHere_append h hroom]
        exact ((h.put hroom).putbytes hbs).symm
      · have hfull := h.full hleft
        have hlt : ¬as.length ≤ room s as := fun hle => hleft (List.drop_eq_nil_of_le hle)
        have hsame : room s (as ++ bs) = room s as := by
          unfold room at hfull hlt ⊢
          rw [List.length_append]
          omega
        have hle : room s as ≤ as.length := by omega
        have hmore : as.drop (room s as) ++ bs ≠ [] := List.append_ne_nil_of_left_ne_nil hleft bs
        rw [if_neg hleft, hsame, List.take_append_of_le_length hle, List.drop_append_of_le_length hle, if_neg hmore]
        obtain ⟨ok, s', hflush, hs', hempty⟩ := ((h.put (h.filled as)).sent true).flush writeit false
        rw [hflush]
        cases ok with
        | false => rfl
        | true => exact ih _ (hn ▸ h.needed_lt hs' (hempty rfl) hleft) hs' _ hleft hmore rfl

end Cuts

/-! ### Encoding -/

/-- A word that is put is four bytes that are put. -/
theorem putWord_eq {writeit : Writeit} {s : OutStream} (h : Bounds s) {word : List Byte} (hword : word.length = 4) :
    putWord writeit word s = xdrrecPutbytes writeit word s := by
  have hne : word ≠ [] := by
    rintro rfl
    cases hword
  have hput : ∀ {s : OutStream}, Pointers s → s.outFinger + 4 ≤ s.outBoundry →
      putAtFinger word s = xdrrecPutbytes writeit word s := by
    intro s hs hroom
    have hall : room s word = word.length := by
      unfold room
      omega
    have hwhole : putHere word s = { s with buf := overwrite s.buf s.outFinger word, outFinger := s.outFinger + 4 } := by
      rw [putHere, hword]
    rw [hs.putbytes hne, hall, List.drop_length, if_pos rfl, List.take_length, putAtFinger,
      hs.stores (by rw [hword]; exact hroom), hwhole]
    rfl
  unfold putWord
  by_cases hfull : s.outBoundry < s.outFinger + 4
  · have hnone : room s word = 0 := by
      have hfinger := h.finger
      have haligned := h.aligned
      have hunit := h.word
      unfold room
      omega
    have hsame : putHere [] s = s := by
      rw [putHere, overwrite, List.append_nil]
      simp only [List.length_nil, Nat.add_zero, List.take_append_drop]
    rw [if_pos hfull, h.pointers.putbytes hne, hnone, List.drop_zero, if_neg hne, List.take_zero, hsame]
    obtain ⟨ok, s', hflush, hs', hempty⟩ := (h.pointers.sent true).flush writeit false
    rw [hflush]
    cases ok with
    | false => rfl
    | true =>
        have hleast := hs'.least
        exact hput hs' (by rw [hempty rfl]; exact hleast)
  · rw [if_neg hfull]
    exact hput h.pointers (Nat.le_of_not_lt hfull)

/-- An encoder that does to every stream in use what one call of `xdrrec_putbytes` does. -/
def PutsAtOnce {σ : Type} (writeit : Writeit) (f : OutStream × Stream σ → Res (Bool × OutStream × Stream σ))
    (bs : List Byte) : Prop :=
  4 ∣ bs.length ∧ ∀ s t records record, Inv writeit s records record → f (s, t) = onOut t (xdrrecPutbytes writeit bs s)

section AtOnce

variable {σ : Type} {writeit : Writeit}

/-- One operation behind the other. -/
theorem onOut_andThen {t : Stream σ} {r : Res (Bool × OutStream)} {f : OutStream → Res (Bool × OutStream)}
    {g : OutStream × Stream σ → Res (Bool × OutStream × Stream σ)}
    (h : ∀ s, r = .ok (true, s) → g (s, t) = onOut t (f s)) : andThen (onOut t r) g = onOut t (andThen r f) := by
  cases r with
  | error e => rfl
  | ok p =>
      obtain ⟨ok, s⟩ := p
      cases ok with
      | false => rfl
      | true => exact h s rfl

theorem putsAtOnce_append {f g : OutStream × Stream σ → Res (Bool × OutStream × Stream σ)} {as bs : List Byte}
    (hf : PutsAtOnce writeit f as) (hg : PutsAtOnce writeit g bs) :
    PutsAtOnce writeit (fun x => andThen (f x) g) (as ++ bs) := by
  refine ⟨dvd_length_append hf.1 hg.1, fun s t records record hinv => ?_⟩
  obtain ⟨ok, s', hput, hinv'⟩ := hinv.xdrrecPutbytes hf.1
  show andThen (f (s, t)) g = _
  rw [hf.2 s t records record hinv, hinv.bounds.pointers.putbytes_append]
  refine onOut_andThen fun s'' hs'' => ?_
  rw [hput] at hs''
  cases hs''
  exact hg.2 s' t records _ hinv'

theorem putsAtOnce_octets (readit : Readit σ) (bs : List Byte) :
    PutsAtOnce writeit (xdrOpaqueEncode (xdrrecOps writeit readit) bs) (padded bs) := by
  refine ⟨length_padded bs, fun s t records record hinv => ?_⟩
  unfold xdrOpaqueEncode padded
  by_cases hnil : bs.length = 0
  · rw [if_pos hnil, List.eq_nil_of_length_eq_zero hnil]
    rfl
  · rw [if_neg hnil, hinv.bounds.pointers.putbytes_append]
    refine onOut_andThen fun s' _ => ?_
    by_cases hpad : rndup bs.length = 0
    · rw [if_pos hpad, hpad]
      rfl
    · rw [if_neg hpad]
      rfl

theorem encodes_xdrrec (writeit : Writeit) (readit : Readit σ) : Encodes (xdrrecOps writeit readit) (PutsAtOnce writeit) where
  nil := ⟨Nat.dvd_zero 4, fun _ _ _ _ _ => rfl⟩
  append := putsAtOnce_append
  putWord int32 l := by
    refine ⟨Nat.dvd_refl 4, fun s t records record hinv => ?_⟩
    have hword := @putWord_eq writeit s hinv.bounds (bytesOf l) (length_bytesOf l)
    rw [← hword]
    cases int32 with
    | false => rfl
    | true => rfl
  octets := putsAtOnce_octets readit

end AtOnce

/-! ### Records of values -/

/-- A value with its filter. A record of several is a pair, or pairs of pairs. -/
structure Item where
  func : Ty
  data : Val

def Item.wire (item : Item) : List Byte := item.func.wire item.data

/-- The value is one of the type, and its external form not too long for a `u_int`. -/
structure Item.Sound (item : Item) : Prop where
  hasType : item.func.HasType item.data
  fits : item.func.Fits item.data
  short : item.wire.length < uintRange

section Send

variable {σ : Type} (writeit : Writeit) (readit : Readit σ) (env : XdrEnv)

/-- Records, each with the flag it is ended with. A sender that gets FALSE gives up. -/
def sendRecords : List (Item × Bool) → OutStream × Stream σ → Res (Bool × OutStream × Stream σ)
  | [], x => .ok (true, x)
  | (item, sendnow) :: records, x =>
      andThen (item.func.encode (xdrrecOps writeit readit) env item.data x) fun x =>
        andThen (onOut x.2 (xdrrecEndofrecord writeit sendnow x.1)) (sendRecords records)

/-- Records of bytes, each put by one call. -/
def sendBytes : List (List Byte × Bool) → OutStream → Res (Bool × OutStream)
  | [], s => .ok (true, s)
  | (bs, sendnow) :: records, s =>
      andThen (xdrrecPutbytes writeit bs s) fun s =>
        andThen (xdrrecEndofrecord writeit sendnow s) (sendBytes records)

theorem Inv.sendRecords_eq {records : List (Item × Bool)} (hitems : ∀ r ∈ records, r.1.Sound) {s : OutStream}
    {t : Stream σ} {done : List (List Byte)} (h : Inv writeit s done []) :
    sendRecords writeit readit env records (s, t) =
      onOut t (sendBytes writeit (records.map fun r => (r.1.wire, r.2)) s) := by
  induction records generalizing s done with
  | nil => rfl
  | cons r records ih =>
      obtain ⟨item, sendnow⟩ := r
      obtain ⟨hty, hfit, hshort⟩ := hitems _ List.mem_cons_self
      have hput := item.func.encodes (encodes_xdrrec writeit readit) env hty hfit hshort
      obtain ⟨ok, s₁, hbytes, hinv₁⟩ := h.xdrrecPutbytes hput.1
      obtain ⟨ok', s₂, hend, hinv₂⟩ := hinv₁.xdrrecEndofrecord sendnow
      rw [sendRecords, hput.2 s t done [] h]
      refine onOut_andThen fun s' hs' => ?_
      rw [hbytes] at hs'
      cases hs'
      refine onOut_andThen fun s' hs' => ?_
      rw [hend] at hs'
      cases hs'
      exact ih (fun q hq => hitems q (List.mem_cons_of_mem _ hq)) hinv₂.1

end Send

theorem inv_createOut (writeit : Writeit) {sendsize recvsize : Nat} (hsize : sendsize + recvsize + 4 < 2 ^ 31)
    (garbage : Nat → Byte) : Inv writeit (createOut sendsize garbage) [] [] :=
  ⟨Bounds.createOut hsize garbage, fun _ => ⟨[], [], rfl, fun _ hr => absurd hr List.not_mem_nil,
    fun _ hf => absurd hf List.not_mem_nil, rfl, rfl⟩⟩

/-- As long as the buffers are not too large for `xdrrec_create`, what sending values makes of a record stream depends
on their external form alone: it is what one call of `xdrrec_putbytes` for each record makes of it, up to the first
FALSE. -/
theorem sendRecords_eq_sendBytes {σ : Type} {sendsize recvsize : Nat} (hsize : sendsize + recvsize + 4 < 2 ^ 31)
    (garbage : Nat → Byte) (writeit : Writeit) (readit : Readit σ) (env : XdrEnv) {records : List (Item × Bool)}
    (hitems : ∀ r ∈ records, r.1.Sound) (t : Stream σ) :
    sendRecords writeit readit env records (createOut sendsize garbage, t) =
      onOut t (sendBytes writeit (records.map fun r => (r.1.wire, r.2)) (createOut sendsize garbage)) :=
  (inv_createOut writeit hsize garbage).sendRecords_eq writeit readit env hitems

/-- A string and a number. -/
def greeting : Item := ⟨.pair (.string 16) (.scalar .int), .pair (.bytes [104, 101, 108, 108, 111]) (.num 7)⟩

theorem greeting_sound : greeting.Sound :=
  ⟨⟨_, _, rfl, ⟨_, rfl, by decide, by decide⟩, ⟨7, rfl, by decide, by decide⟩⟩,
    ⟨_, _, rfl, trivial, trivial⟩, by decide⟩

theorem sendRecords_eq_sendBytes_greeting :
    sendRecords (fun _ bytes => bytes.length) (fun h _ => some (none, h)) ⟨true, fun _ => true, fun _ _ => 0⟩
        [(greeting, true)] (createOut 100 fun _ => 0, ⟨create 100, ()⟩) =
      onOut ⟨create 100, ()⟩
        (sendBytes (fun _ bytes => bytes.length) [(greeting.wire, true)] (createOut 100 fun _ => 0)) := by
  refine @sendRecords_eq_sendBytes Unit 100 100 (by decide) (fun _ => 0) _ _ _ [(greeting, true)] ?_ _
  intro r hr
  rw [List.mem_singleton.mp hr]
  exact greeting_sound

end RpcMt.XdrRec
