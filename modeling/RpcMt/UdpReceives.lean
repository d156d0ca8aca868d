import RpcMt.UdpRequests

/-! What `svcudp_recv` answers over a whole run. A receive that fails for another reason than EINTR goes
on to decode what the buffer holds: `svc_accept_failed` returns, and the length -1 is a large `size_t`.
The invocations of `svcudp_recv` are logged beside the server, each with the outcome of its last
receive. -/

open RpcMt.Runs

namespace RpcMt

variable {V ρ : Type}

/-- One invocation of `svcudp_recv`: how its last receive ended, what it answered, and the message that
goes to `request_lookup` when it answers TRUE. -/
structure Invocation where
  last : RecvOutcome
  rv : Bool
  msg : Option RpcMsg

def RecvOutcome.isDatagram : RecvOutcome → Bool
  | .datagram _ _ _ => true
  | _ => false

/-- An invocation that answers TRUE has received a datagram of 16 bytes or more, and the message was
decoded from the buffer with that datagram at its start. -/
def Invocation.Backed (k : Codec ρ) (iosz : Nat) (i : Invocation) : Prop :=
  i.rv = true → ∃ src addrlen bytes msg rest w, i.last = .datagram src addrlen bytes ∧
    16 ≤ (bytes.take iosz).length ∧ i.msg = some msg ∧
    k.xdrCallmsg.run ⟨.decode, bytes.take iosz ++ rest, 0, iosz⟩ = .ok (true, msg, w)

/-- The server with its invocations of `svcudp_recv`, newest first. -/
structure RecvRun (V ρ : Type) where
  server : UdpServer V ρ
  log : List Invocation

/-- The message that the buffer of the transport at `a` holds as it is, if it holds one. -/
def UdpState.leftover (st : UdpState) (xdrCallmsg : Filter RpcMsg) (a : Addr) : Option RpcMsg := do
  let x ← st.xprts a
  let old ← st.bufs x.xpPriv.rpcBuffer
  match xdrCallmsg.run ⟨.decode, old, 0, x.xpPriv.suIosz⟩ with
  | .ok (true, msg, _) => some msg
  | _ => none

namespace RecvRun

section Machine

variable (k : Codec ρ) (cfg : Config) (master : Addr) (s : RecvRun V ρ)

def step : UdpEvent V ρ → Option (RecvRun V ρ)
  | .recv os => (UdpState.recvLoop os).bind fun o =>
      match s.server.st.svcudpRecv k.xdrCallmsg master o with
      | .error _ => none
      | .ok r => (s.server.step k cfg master (.recv os)).map fun t => ⟨t, ⟨o, r.rv, r.msg⟩ :: s.log⟩
  | e => (s.server.step k cfg master e).map fun t => ⟨t, s.log⟩

/-- The requests handed to `request_lookup`. -/
def requests : Nat := s.log.countP fun i => i.rv

/-- The datagrams received. -/
def datagrams : Nat := s.log.countP fun i => i.last.isDatagram

def Backed (iosz : Nat) : Prop :=
  (∀ i ∈ s.log, i.Backed k iosz) ∧ s.requests ≤ s.datagrams

/-- No receive fails, other than with EINTR, over a buffer that still holds a message. -/
def Quiet : UdpEvent V ρ → Prop
  | .recv os => UdpState.recvLoop os = some .failed → s.server.st.leftover k.xdrCallmsg master = none
  | _ => True

end Machine

variable {k : Codec ρ} {cfg : Config} {master : Addr} {s t : RecvRun V ρ} {iosz : Nat} {cached : Bool}

theorem recvLoop_ne_eintr {os : List RecvOutcome} {o : RecvOutcome} (h : UdpState.recvLoop os = some o) :
    o ≠ .eintr := by
  induction os with
  | nil => cases h
  | cons first rest ih =>
      cases first with
      | eintr => exact ih h
      | failed =>
          cases h
          simp
      | datagram src addrlen bytes =>
          cases h
          simp

theorem incoming_failed (st : UdpState) (xdrCallmsg : Filter RpcMsg) (a : Addr) :
    st.incoming xdrCallmsg a .failed = st.leftover xdrCallmsg a := rfl

/-- What an invocation answers is backed by a datagram unless it decodes what an earlier one has left. -/
theorem invocation_backed_iff {s : UdpServer V ρ} (h : UdpServer.UdpInv k master iosz cached s) {o : RecvOutcome}
    (ho : o ≠ .eintr) {r : UdpState.Received} (hr : s.st.svcudpRecv k.xdrCallmsg master o = .ok r) :
    Invocation.Backed k iosz ⟨o, r.rv, r.msg⟩ ↔
      (o = .failed → s.st.leftover k.xdrCallmsg master = none) := by
  obtain ⟨x, hx, _⟩ := h.live
  obtain ⟨bytes, hbytes, _⟩ := h.bufs.buf master x hx
  obtain ⟨_, _, _, hmsg, hcases⟩ := UdpState.svcudpRecv_ok h.bufs h.fits hx hr
  have hincoming := UdpState.incoming_eq h.bufs hx hbytes k.xdrCallmsg o
  constructor
  · rintro hbacked rfl
    rcases hcases with ⟨_, hnone, _⟩ | ⟨msg, hrv, _⟩
    · rw [← incoming_failed, ← hmsg]
      exact hnone
    · obtain ⟨_, _, _, _, _, _, hlast, _⟩ := hbacked hrv
      cases hlast
  · intro hquiet hrv
    rcases hcases with ⟨hfalse, _⟩ | ⟨msg, _, hsome, _⟩
    · rw [hfalse] at hrv
      cases hrv
    · rw [hsome] at hmsg
      cases o with
      | eintr => exact absurd rfl ho
      | failed =>
          rw [incoming_failed, hquiet rfl] at hmsg
          cases hmsg
      | datagram src addrlen got =>
          rw [hincoming] at hmsg
          split at hmsg
          · cases hmsg
          rename_i hlong
          split at hmsg
          · rename_i msg' w hrun
            cases hmsg
            exact ⟨src, addrlen, got, msg, _, w, rfl, Nat.le_of_not_lt hlong, hsome, hrun⟩
          · cases hmsg

theorem step_server {e : UdpEvent V ρ} (hst : s.step k cfg master e = some t) :
    s.server.step k cfg master e = some t.server := by
  cases e with
  | recv os =>
      obtain ⟨o, _, hst⟩ := Option.bind_eq_some_iff.mp hst
      split at hst
      · cases hst
      · obtain ⟨u, hu, rfl⟩ := Option.map_eq_some_iff.mp hst
        exact hu
  | _ =>
      obtain ⟨u, hu, rfl⟩ := Option.map_eq_some_iff.mp hst
      exact hu

/-- One step: the log stays backed exactly when the step is quiet. -/
theorem step_backed_iff (h : UdpServer.UdpInv k master iosz cached s.server) {e : UdpEvent V ρ}
    (hst : s.step k cfg master e = some t) :
    (∀ i ∈ t.log, i.Backed k iosz) ↔ (∀ i ∈ s.log, i.Backed k iosz) ∧ s.Quiet k master e := by
  cases e with
  | recv os =>
      obtain ⟨o, ho, hst⟩ := Option.bind_eq_some_iff.mp hst
      split at hst
      · cases hst
      · rename_i r hr
        obtain ⟨u, _, rfl⟩ := Option.map_eq_some_iff.mp hst
        have hquiet : s.Quiet k master (.recv os) ↔
            (o = .failed → s.server.st.leftover k.xdrCallmsg master = none) := by
          rw [Quiet, ho, Option.some.injEq]
        rw [List.forall_mem_cons, hquiet, invocation_backed_iff h (recvLoop_ne_eintr ho) hr, and_comm]
  | _ =>
      obtain ⟨u, _, rfl⟩ := Option.map_eq_some_iff.mp hst
      exact (and_iff_left trivial).symm

/-- As many requests as datagrams at most, where every invocation is backed. -/
theorem requests_le_datagrams (h : ∀ i ∈ s.log, i.Backed k iosz) : s.requests ≤ s.datagrams := by
  apply List.countP_mono_left
  intro i hi hrv
  obtain ⟨src, addrlen, bytes, _, _, _, hlast, _⟩ := h i hi hrv
  rw [hlast]
  rfl

theorem backed_iff : s.Backed k iosz ↔ ∀ i ∈ s.log, i.Backed k iosz :=
  ⟨fun h => h.1, fun h => ⟨h, requests_le_datagrams h⟩⟩

section Created

variable {sock port id sendsz recvsz size : Nat} {pktinfo : Bool} {buf : BufId} {garbage : Nat → Byte}
  {suCache ucOk entriesOk fifoOk : Bool} {fields : Caller}

/-- A server that `svcudp_bufcreate` has made, with the cache that `svcudp_enablecache` has given it, or
with none where that has failed or was not called. -/
def created (master : Addr) (sock port id sendsz recvsz : Nat) (pktinfo : Bool) (buf : BufId)
    (garbage : Nat → Byte) (cache : Option UdpCache) : RecvRun V ρ :=
  ⟨UdpServer.start master sock port id sendsz recvsz pktinfo buf garbage cache, []⟩

theorem udpInv_of_reached {ok : RecvRun V ρ → UdpEvent V ρ → Prop} {cache : Option UdpCache}
    (hcache : svcudpEnablecache suCache size ucOk entriesOk fifoOk fields = cache)
    (hs : Reached (step k cfg master) ok
      (created master sock port id sendsz recvsz pktinfo buf garbage cache) s) :
    UdpServer.UdpInv k master (UdpServer.svcudpBufsize sendsz recvsz) cache.isSome s.server :=
  hs.invariant (fun s => UdpServer.UdpInv k master _ _ s.server)
    (UdpServer.udpInv_start (UdpCache.cacheInv_enabled hcache)) fun _ _ _ h _ hst => h.step (step_server hst)

/-- The runs without a failed receive over a buffer that still holds a message are exactly the runs in
which every request handed to `request_lookup` has come with a datagram of its own. -/
theorem requests_backed_iff (s : RecvRun V ρ) :
    Reached (step k cfg master) (fun s e => s.Quiet k master e)
        (created master sock port id sendsz recvsz pktinfo buf garbage
          (svcudpEnablecache suCache size ucOk entriesOk fifoOk fields)) s ↔
      Reached (step k cfg master) anyStep
        (created master sock port id sendsz recvsz pktinfo buf garbage
          (svcudpEnablecache suCache size ucOk entriesOk fifoOk fields)) s ∧
      s.Backed k (UdpServer.svcudpBufsize sendsz recvsz) := by
  rw [backed_iff]
  constructor
  · intro hs
    refine ⟨hs.mono fun _ _ _ => trivial, ?_⟩
    induction hs with
    | start =>
        intro i hi
        cases hi
    | next hs hquiet hst ih => exact (step_backed_iff (udpInv_of_reached rfl hs) hst).mpr ⟨ih, hquiet⟩
  · rintro ⟨hs, hbacked⟩
    induction hs with
    | start => exact .start
    | next hs _ hst ih =>
        obtain ⟨hbefore, hquiet⟩ := (step_backed_iff (udpInv_of_reached rfl hs) hst).mp hbacked
        exact .next (ih hbefore) hquiet hst

/-- A call is received; then a receive fails, and the call is handed on once more. -/
theorem requests_backed_fails : ¬∀ s : RecvRun (List Nat) (List Nat),
    Reached (step nullCodec UdpServer.unwaitedConfig 0) anyStep
      (created 0 3 111 0 48 48 false 10 (fun _ => 0) none) s → s.Backed nullCodec 48 := by
  intro hall
  have hrun : (exec (step nullCodec UdpServer.unwaitedConfig 0) anyStep
      (created 0 3 111 0 48 48 false 10 (fun _ => 0) none)
      [UdpServer.someCall 1000 7 42, .recv [.eintr, .failed]]).map (fun s => (s.requests, s.datagrams)) =
      some (2, 1) := by decide +kernel
  obtain ⟨s, hs, hcounts⟩ := Option.map_eq_some_iff.mp hrun
  obtain ⟨hreq, hgot⟩ := Prod.mk.inj hcounts
  have hle := (hall s (reached_of_exec _ _ .start _ hs)).2
  rw [hreq, hgot] at hle
  omega

end Created

end RecvRun

end RpcMt
