import RpcMt.ControlMessages
import RpcMt.Runs

/-! The source address of a reply over UDP. Behind an `iovec` and a `msghdr`, `xp_pad` has room for the
control messages that come with a datagram. `svcudp_recv` keeps them when they are what it expects, and
says so by the pointer and the length in the `msghdr`; `svcudp_xprt_clone` copies the pad and sets pointer
and length for the clone; `svcudp_reply` sends what they describe. -/

namespace RpcMt

open Runs ControlMessages

namespace Pktinfo

/-- `sizeof (xprt->xp_pad) - sizeof (struct iovec) - sizeof (struct msghdr)`. -/
def ctlSize : Nat := 256 - 16 - 56

def solIp : BitVec 32 := 0

def ipPktinfo : BitVec 32 := 8

/-- `SIMPLE_IP_PKTINFO_SIZE`. -/
def simpleIpPktinfoSize : Nat := hdrSize + 12

/-- A `msg_control` pointer: null, the control area in the pad of a transport, or all ones. -/
inductive CtlPtr where
  | null
  | pad (xprt : Nat)
  | ones
  deriving DecidableEq

/-- `xp_pad`, as far as it describes control messages. -/
structure XpPad where
  msgIovlen : Nat
  msgControl : CtlPtr
  msgControllen : Nat
  control : List (BitVec 8)

/-- The pad that `svcudp_bufcreate` fills with ones where the socket gives `IP_PKTINFO`, with zeros where
it does not. -/
def XpPad.filled (pktinfo : Bool) : XpPad :=
  if pktinfo then ⟨2 ^ 64 - 1, .ones, 2 ^ 64 - 1, List.replicate ctlSize 255⟩
  else ⟨0, .null, 0, List.replicate ctlSize 0⟩

/-- `is_simple_ip_pktinfo`. -/
def isSimpleIpPktinfo (p : XpPad) : Option Nat → Bool
  | none => false
  | some cmsg => (cmsgNxthdr p.control p.msgControllen cmsg).isSome &&
      (cmsgLevel p.control cmsg == solIp.toNat && (cmsgType p.control cmsg == ipPktinfo.toNat &&
        decide (simpleIpPktinfoSize ≤ cmsgLen p.control cmsg)))

/-- The receiving half of `svcudp_recv_with_id_lock`. `heard` is what `recvmsg` gives: a datagram with
control messages, or a failure. -/
def recvPad (xprt : Nat) (heard : Option (List Cmsg)) (p : XpPad) : XpPad :=
  if p.msgIovlen = 0 then p
  else
    let p := { p with msgIovlen := 1, msgControl := .pad xprt, msgControllen := ctlSize }
    match heard with
    | none => p
    | some cmsgs =>
        let p := { p with msgControllen := size cmsgs, control := write cmsgs p.control }
        if isSimpleIpPktinfo p (cmsgFirsthdr p.msgControllen) then
          { p with control := put hdrSize (leBytes 4 0) p.control }
        else { p with msgControl := .null, msgControllen := 0 }

/-- The pad of the clone that `svcudp_xprt_clone` makes at `xprt2`; nothing where an assertion fails. -/
def clonePad (xprt2 : Nat) (p1 : XpPad) : Option XpPad :=
  let p2 := p1
  if p2.msgIovlen = 0 then some p2
  else
    let p2 := { p2 with msgIovlen := 1 }
    if p1.msgControl ≠ .null then some { p2 with msgControl := .pad xprt2, msgControllen := ctlSize }
    else if p2.msgControl = .null ∧ p2.msgControllen = 0 then some p2
    else none

/-! ### Transports -/

/-- A transport. `heard` is not in the source: the control messages that came with the datagram whose
request it holds. -/
structure UdpXprt where
  xpPad : XpPad
  heard : Option (List Cmsg)

/-- A reply to the request of a datagram, with the control data that `sendmsg` takes; nothing where it
fails. -/
structure Reply where
  heard : List Cmsg
  carried : Option (List (BitVec 8))

structure Udp where
  xprts : Nat → Option UdpXprt
  replies : List Reply

/-- What `sendmsg` reads through `msg_control`. -/
def Udp.sendmsg (s : Udp) (p : XpPad) : Option (List (BitVec 8)) :=
  match p.msgControl with
  | .null => if p.msgControllen = 0 then some [] else none
  | .pad xprt => (s.xprts xprt).map fun x => x.xpPad.control.take p.msgControllen
  | .ones => none

/-- `svcudp_reply`; `sendto` takes no control data. -/
def Udp.svcudpReply (s : Udp) (p : XpPad) : Option (List (BitVec 8)) :=
  if p.msgIovlen = 0 then some [] else s.sendmsg p

inductive Event where
  | bufcreate (xprt : Nat) (pktinfo : Bool)
  | recv (xprt : Nat) (heard : Option (List Cmsg))
  | clone (xprt1 xprt2 : Nat)
  | reply (xprt : Nat)
  | destroy (xprt : Nat)

/-- `recvmsg` gives control messages that fit the area, `recvfrom` gives none. -/
def CanHear (p : XpPad) (cmsgs : List Cmsg) : Prop :=
  if p.msgIovlen = 0 then cmsgs = [] else size cmsgs ≤ ctlSize

instance (p : XpPad) (cmsgs : List Cmsg) : Decidable (CanHear p cmsgs) := by
  unfold CanHear
  infer_instance

def Udp.put (s : Udp) (xprt : Nat) (x : UdpXprt) : Udp := { s with xprts := Function.update s.xprts xprt (some x) }

def step (s : Udp) : Event → Option Udp
  | .bufcreate xprt pktinfo =>
      if s.xprts xprt = none then some (s.put xprt ⟨XpPad.filled pktinfo, none⟩) else none
  | .recv xprt heard => do
      let x ← s.xprts xprt
      if ∀ cmsgs ∈ heard, CanHear x.xpPad cmsgs then some (s.put xprt ⟨recvPad xprt heard x.xpPad, heard⟩)
      else none
  | .clone xprt1 xprt2 => do
      let x ← s.xprts xprt1
      if s.xprts xprt2 = none then (clonePad xprt2 x.xpPad).map fun p => s.put xprt2 ⟨p, x.heard⟩ else none
  | .reply xprt => do
      let x ← s.xprts xprt
      let cmsgs ← x.heard
      some { s with replies := ⟨cmsgs, s.svcudpReply x.xpPad⟩ :: s.replies }
  | .destroy xprt => some { s with xprts := Function.update s.xprts xprt none }

def start : Udp := ⟨fun _ => none, []⟩

/-! ### What a reply should carry -/

/-- An `IP_PKTINFO` message, with a whole `struct in_pktinfo`. -/
def IsPktinfo (m : Cmsg) : Prop :=
  m.cmsgLevel = solIp ∧ m.cmsgType = ipPktinfo ∧ simpleIpPktinfoSize ≤ m.len

instance (m : Cmsg) : Decidable (IsPktinfo m) := by
  unfold IsPktinfo
  infer_instance

/-- `ipi_ifindex`. -/
def ipiIfindex (m : Cmsg) : Nat := field 0 4 m.data

/-- `ipi_spec_dst` and `ipi_addr`: the local address. -/
def ipiAddrs (m : Cmsg) : List (BitVec 8) := (m.data.drop 4).take 8

/-- A lone `IP_PKTINFO` is answered with its address and no interface, anything else without control data. -/
def Reply.Sound (r : Reply) : Prop :=
  match r.heard with
  | [m] =>
      if IsPktinfo m then ∃ area m', r.carried = some area ∧ Holds area [m'] ∧ IsPktinfo m' ∧
        ipiIfindex m' = 0 ∧ ipiAddrs m' = ipiAddrs m
      else r.carried = some []
  | _ => r.carried = some []

/-- The list begins with an `IP_PKTINFO`. -/
def StartsWithPktinfo (cmsgs : List Cmsg) : Prop := ∃ m ∈ cmsgs.head?, IsPktinfo m

/-- The lists that are kept: an `IP_PKTINFO` with more behind it. -/
def Kept (cmsgs : List Cmsg) : Prop := StartsWithPktinfo cmsgs ∧ 2 ≤ cmsgs.length

/-! ### What the pads hold -/

/-- What the list of a transport has left in its pad. -/
structure PadOk (xprt : Nat) (x : UdpXprt) : Prop where
  room : x.xpPad.control.length = ctlSize
  plain : x.xpPad.msgIovlen = 0 → x.xpPad.msgControl = .null
  empty : x.xpPad.msgControl = .null → x.xpPad.msgControllen = 0
  kept : ∀ cmsgs, x.heard = some cmsgs → Kept cmsgs → x.xpPad.msgControl = .pad xprt ∧
    0 < x.xpPad.msgControllen ∧ x.xpPad.msgControllen ≤ ctlSize
  dropped : ∀ cmsgs, x.heard = some cmsgs → ¬ Kept cmsgs → x.xpPad.msgControl = .null

/-- The walk that classifies a list of messages looks for a second one. -/
theorem isSimple_write {p : XpPad} {cmsgs : List Cmsg} {mem : List (BitVec 8)} (hfit : size cmsgs ≤ ctlSize)
    (hmem : mem.length = ctlSize) (hcontrol : p.control = write cmsgs mem) (hlen : p.msgControllen = size cmsgs) :
    isSimpleIpPktinfo p (cmsgFirsthdr p.msgControllen) = true ↔ Kept cmsgs := by
  rw [hlen, cmsgFirsthdr_size]
  cases cmsgs with
  | nil =>
      rw [if_pos rfl]
      refine iff_of_false Bool.false_ne_true ?_
      rintro ⟨_, hlong⟩
      cases hlong
  | cons m ms =>
      have hctl : ctlSize = 184 := rfl
      have hword : m.len < 2 ^ 64 := by
        have hle := m.len_le_space
        rw [size] at hfit
        omega
      rw [if_neg (List.cons_ne_nil m ms), isSimpleIpPktinfo, hcontrol, hlen,
        cmsgNxthdr_write (by omega) (by omega), cmsgLevel_write, cmsgType_write, cmsgLen_write hword]
      cases ms with
      | nil =>
          rw [if_pos rfl]
          refine iff_of_false Bool.false_ne_true ?_
          rintro ⟨_, hlong⟩
          exact absurd hlong (by simp)
      | cons m' ms =>
          rw [if_neg (List.cons_ne_nil m' ms)]
          simp [Kept, StartsWithPktinfo, IsPktinfo, BitVec.toNat_inj]

theorem size_pos {cmsgs : List Cmsg} (h : Kept cmsgs) : 0 < size cmsgs := by
  cases cmsgs with
  | nil => exact absurd h.2 (by simp)
  | cons m ms =>
      have hhdr : 16 ≤ m.space := m.hdrSize_le_space
      rw [size]
      omega

theorem padOk_filled (xprt : Nat) (pktinfo : Bool) : PadOk xprt ⟨XpPad.filled pktinfo, none⟩ where
  room := by cases pktinfo <;> rfl
  plain h := by
    cases pktinfo with
    | false => rfl
    | true => cases h
  empty h := by
    cases pktinfo with
    | false => rfl
    | true => cases h
  kept _ h := by cases h
  dropped _ h := by cases h

/-- A datagram leaves its messages in the pad when they are kept, and nothing when they are not. -/
theorem padOk_recv {xprt : Nat} {x : UdpXprt} {heard : Option (List Cmsg)} (h : PadOk xprt x)
    (hhear : ∀ cmsgs ∈ heard, CanHear x.xpPad cmsgs) : PadOk xprt ⟨recvPad xprt heard x.xpPad, heard⟩ := by
  by_cases hplain : x.xpPad.msgIovlen = 0
  · have hpad : recvPad xprt heard x.xpPad = x.xpPad := if_pos hplain
    rw [hpad]
    have hnone : ∀ cmsgs, heard = some cmsgs → ¬ Kept cmsgs := by
      rintro cmsgs rfl hkept
      have hnil : cmsgs = [] := (if_pos hplain).mp (hhear cmsgs rfl)
      exact absurd hkept.2 (by simp [hnil])
    exact ⟨h.room, h.plain, h.empty, fun cmsgs hc hkept => absurd hkept (hnone cmsgs hc),
      fun _ _ _ => h.plain hplain⟩
  · unfold recvPad
    rw [if_neg hplain]
    cases heard with
    | none =>
        exact ⟨h.room, fun h0 => (nomatch h0), fun h0 => (nomatch h0), fun _ hc => (nomatch hc),
          fun _ hc => (nomatch hc)⟩
    | some cmsgs =>
        have hfit : size cmsgs ≤ ctlSize := (if_neg hplain).mp (hhear cmsgs rfl)
        have hwritten : (write cmsgs x.xpPad.control).length = ctlSize := by
          rw [length_write (by rw [h.room]; exact hfit), h.room]
        have hsimple := isSimple_write (p := ⟨1, .pad xprt, size cmsgs, write cmsgs x.xpPad.control⟩) hfit h.room rfl rfl
        simp only
        by_cases hkept : Kept cmsgs
        · rw [if_pos (hsimple.mpr hkept)]
          have hroom : hdrSize + (leBytes 4 0).length ≤ ctlSize := by decide
          refine ⟨?_, fun h0 => (nomatch h0), fun h0 => (nomatch h0), ?_, ?_⟩
          · rw [← hwritten] at hroom ⊢
            exact length_put hroom
          · exact fun _ _ _ => ⟨rfl, size_pos hkept, hfit⟩
          · intro cmsgs' hc hdrop
            cases hc
            exact absurd hkept hdrop
        · rw [if_neg (mt hsimple.mp hkept)]
          refine ⟨hwritten, fun h0 => (nomatch h0), fun _ => rfl, ?_, fun _ _ _ => rfl⟩
          intro cmsgs' hc hkept'
          cases hc
          exact absurd hkept' hkept

/-- The assertions of `svcudp_xprt_clone` hold, and the clone has the pad that its request asks for. -/
theorem padOk_clone {xprt1 : Nat} {x : UdpXprt} (h : PadOk xprt1 x) (xprt2 : Nat) :
    ∃ p, clonePad xprt2 x.xpPad = some p ∧ PadOk xprt2 ⟨p, x.heard⟩ := by
  unfold clonePad
  by_cases hplain : x.xpPad.msgIovlen = 0
  · refine ⟨x.xpPad, if_pos hplain, h.room, h.plain, h.empty, ?_, h.dropped⟩
    intro cmsgs hc hkept
    have hnull := (h.kept cmsgs hc hkept).1
    rw [h.plain hplain] at hnull
    cases hnull
  · rw [if_neg hplain]
    by_cases hnull : x.xpPad.msgControl = .null
    · refine ⟨_, (if_neg (not_not_intro hnull)).trans (if_pos ⟨hnull, h.empty hnull⟩), h.room,
        fun _ => hnull, h.empty, ?_, h.dropped⟩
      intro cmsgs hc hkept
      have hpad := (h.kept cmsgs hc hkept).1
      rw [hnull] at hpad
      cases hpad
    · refine ⟨_, if_pos hnull, h.room, fun h0 => (nomatch h0), fun h0 => (nomatch h0), ?_, ?_⟩
      · have hpos : 0 < ctlSize := by decide
        exact fun _ _ _ => ⟨rfl, hpos, Nat.le_refl _⟩
      · exact fun cmsgs hc hdrop => absurd (h.dropped cmsgs hc hdrop) hnull

/-- Every transport has the pad that its datagram asks for, and every reply carries control data exactly
when the list was kept. -/
structure Udp.Ok (s : Udp) : Prop where
  pads : ∀ xprt x, s.xprts xprt = some x → PadOk xprt x
  replies : ∀ r ∈ s.replies, r.carried ≠ none ∧ (Kept r.heard ↔ r.carried ≠ some [])

theorem svcudpReply_ok {s : Udp} (hs : s.Ok) {xprt : Nat} {x : UdpXprt} {cmsgs : List Cmsg}
    (hx : s.xprts xprt = some x) (hc : x.heard = some cmsgs) :
    s.svcudpReply x.xpPad ≠ none ∧ (Kept cmsgs ↔ s.svcudpReply x.xpPad ≠ some []) := by
  have hpad := hs.pads xprt x hx
  by_cases hkept : Kept cmsgs
  · obtain ⟨hown, hpos, hle⟩ := hpad.kept cmsgs hc hkept
    have hiov : x.xpPad.msgIovlen ≠ 0 := by
      intro hplain
      rw [hpad.plain hplain] at hown
      cases hown
    have hsent : s.svcudpReply x.xpPad = some (x.xpPad.control.take x.xpPad.msgControllen) := by
      rw [Udp.svcudpReply, if_neg hiov, Udp.sendmsg, hown]
      simp only [hx, Option.map_some]
    have hlong : (x.xpPad.control.take x.xpPad.msgControllen).length = x.xpPad.msgControllen := by
      rw [List.length_take, hpad.room, Nat.min_eq_left hle]
    rw [hsent]
    refine ⟨Option.some_ne_none _, iff_of_true hkept fun hnil => ?_⟩
    rw [Option.some.inj hnil] at hlong
    rw [← hlong] at hpos
    cases hpos
  · have hnull := hpad.dropped cmsgs hc hkept
    have hsent : s.svcudpReply x.xpPad = some [] := by
      unfold Udp.svcudpReply Udp.sendmsg
      rw [hnull, hpad.empty hnull]
      exact ite_self _
    rw [hsent]
    exact ⟨Option.some_ne_none _, iff_of_false hkept (not_not_intro rfl)⟩

theorem ok_update {s : Udp} (hs : s.Ok) {xprt : Nat} {slot : Option UdpXprt}
    (hslot : ∀ x, slot = some x → PadOk xprt x) : { s with xprts := Function.update s.xprts xprt slot }.Ok where
  pads xprt' x h := by
    change Function.update s.xprts xprt slot xprt' = some x at h
    by_cases heq : xprt' = xprt
    · subst heq
      rw [Function.update_self] at h
      exact hslot x h
    · rw [Function.update_of_ne heq] at h
      exact hs.pads xprt' x h
  replies := hs.replies

theorem ok_put {s : Udp} (hs : s.Ok) {xprt : Nat} {x : UdpXprt} (hx : PadOk xprt x) : (s.put xprt x).Ok := by
  apply ok_update hs
  rintro _ ⟨⟩
  exact hx

theorem step_ok {s t : Udp} {e : Event} (hs : s.Ok) (h : step s e = some t) : t.Ok := by
  cases e with
  | bufcreate xprt pktinfo =>
      simp only [step] at h
      split at h
      · cases h
        exact ok_put hs (padOk_filled xprt pktinfo)
      · cases h
  | recv xprt heard =>
      obtain ⟨x, hx, h⟩ := Option.bind_eq_some_iff.mp h
      split at h
      · rename_i hhear
        cases h
        exact ok_put hs (padOk_recv (hs.pads xprt x hx) hhear)
      · cases h
  | clone xprt1 xprt2 =>
      obtain ⟨x, hx, h⟩ := Option.bind_eq_some_iff.mp h
      obtain ⟨p, hp, hpad⟩ := padOk_clone (hs.pads xprt1 x hx) xprt2
      split at h
      · rw [hp] at h
        cases h
        exact ok_put hs hpad
      · cases h
  | reply xprt =>
      obtain ⟨x, hx, h⟩ := Option.bind_eq_some_iff.mp h
      obtain ⟨cmsgs, hc, h⟩ := Option.bind_eq_some_iff.mp h
      cases h
      refine ⟨hs.pads, fun r hr => ?_⟩
      rcases List.mem_cons.mp hr with rfl | hr
      · exact svcudpReply_ok hs hx hc
      · exact hs.replies r hr
  | destroy xprt =>
      cases h
      exact ok_update hs fun _ h => (nomatch h)

theorem ok_of_reached {s : Udp} (hs : Reached step anyStep start s) : s.Ok := by
  apply hs.invariant Udp.Ok
  · exact ⟨fun _ _ h => (nomatch h), fun _ h => (nomatch h)⟩
  · exact fun _ _ _ ih _ hstep => step_ok ih hstep

theorem not_holds_nil (m : Cmsg) : ¬ Holds [] [m] := by
  rintro ⟨hlen, _⟩
  have hhdr : 16 ≤ m.space := m.hdrSize_le_space
  rw [size, size] at hlen
  exact absurd hlen (by simp; omega)

theorem sound_iff {r : Reply} (hr : r.carried ≠ none ∧ (Kept r.heard ↔ r.carried ≠ some [])) :
    r.Sound ↔ ¬ StartsWithPktinfo r.heard := by
  obtain ⟨cmsgs, carried⟩ := r
  obtain ⟨_, hkept⟩ := hr
  simp only at hkept
  rcases cmsgs with _ | ⟨m, _ | ⟨m', ms⟩⟩
  · have hnot : ¬ Kept [] := fun h => absurd h.2 (by simp)
    refine iff_of_true (not_not.mp (mt hkept.mpr hnot)) ?_
    rintro ⟨_, hm, _⟩
    cases hm
  · have hnot : ¬ Kept [m] := fun h => absurd h.2 (by simp)
    have hcarried : carried = some [] := not_not.mp (mt hkept.mpr hnot)
    have hstarts : StartsWithPktinfo [m] ↔ IsPktinfo m := by simp [StartsWithPktinfo]
    rw [hstarts, hcarried]
    by_cases hinfo : IsPktinfo m
    · refine iff_of_false ?_ (not_not_intro hinfo)
      intro hsound
      obtain ⟨area, m', harea, hholds, _⟩ := (if_pos hinfo).mp hsound
      cases harea
      exact not_holds_nil m' hholds
    · exact iff_of_true ((if_neg hinfo).mpr rfl) hinfo
  · have hlong : Kept (m :: m' :: ms) ↔ StartsWithPktinfo (m :: m' :: ms) := and_iff_left (by simp)
    rw [← hlong, hkept, not_not]
    rfl

/-- In every run, a reply carries what it should unless the list that came with its request begins with
an `IP_PKTINFO`. -/
theorem replySource_iff {s : Udp} (hs : Reached step anyStep start s) :
    ∀ r ∈ s.replies, (r.Sound ↔ ¬ StartsWithPktinfo r.heard) :=
  fun r hr => sound_iff ((ok_of_reached hs).replies r hr)

/-- A time to live, and a local address with its interface. -/
def ttl : Cmsg := ⟨solIp, 2, [64, 0, 0, 0]⟩

def eth0 : Cmsg := ⟨solIp, ipPktinfo, [2, 0, 0, 0, 10, 0, 0, 5, 10, 0, 0, 5]⟩

/-- One request is received with these control messages, and answered on a clone. -/
def serve (cmsgs : List Cmsg) : List Event := [.bufcreate 0 true, .recv 0 (some cmsgs), .clone 0 1, .reply 1]

theorem replySource_example : ∃ s, Reached step anyStep start s ∧ ∃ r ∈ s.replies, r.heard = [ttl] ∧ r.Sound := by
  have hrun : (exec step anyStep start (serve [ttl])).map (fun s => s.replies.map Reply.heard) = some [[ttl]] := by
    decide +kernel
  obtain ⟨s, hs, hheard⟩ := Option.map_eq_some_iff.mp hrun
  have hreached := reached_of_exec step anyStep .start _ hs
  obtain ⟨r, hr, hrttl⟩ := List.mem_map.mp (hheard ▸ List.mem_singleton_self [ttl])
  refine ⟨s, hreached, r, hr, hrttl, (replySource_iff hreached r hr).mpr ?_⟩
  rw [hrttl]
  rintro ⟨m, hm, hinfo⟩
  cases hm
  exact absurd hinfo (by decide)

/-- The address of a lone `IP_PKTINFO` is lost: it has no next message, and is taken for something else. -/
theorem replySource_counterexample :
    ¬ ∀ s, Reached step anyStep start s → ∀ r ∈ s.replies, r.Sound := by
  intro hall
  have hrun : (exec step anyStep start (serve [eth0])).map (fun s => s.replies.map fun r => (r.heard, r.carried)) =
      some [([eth0], some [])] := by decide +kernel
  obtain ⟨s, hs, hreplies⟩ := Option.map_eq_some_iff.mp hrun
  have hmem : ([eth0], some []) ∈ s.replies.map fun r => (r.heard, r.carried) := by
    rw [hreplies]
    exact List.mem_singleton_self _
  obtain ⟨r, hr, hpair⟩ := List.mem_map.mp hmem
  obtain ⟨hheard, hcarried⟩ := Prod.mk.inj hpair
  have hsound := hall s (reached_of_exec step anyStep .start _ hs) r hr
  rw [Reply.Sound, hheard, hcarried] at hsound
  obtain ⟨area, m', harea, hholds, _⟩ := hsound
  cases harea
  exact not_holds_nil m' hholds

end Pktinfo

end RpcMt
