import Gretun.Basic
import Gretun.Net.Addr

/-!
# Probing one host

A call of `Probe` as the series of system calls it makes: it opens a raw ICMP
socket, resolves its target, sends one echo request and reads one packet. While the
socket is open the kernel queues every ICMP packet on it that reaches the host, so
the queue is part of the state of the call. What the calls return, the clock and the
context are inputs; parsing ICMP messages and resolving names are parameters.
-/

namespace Gretun

namespace Health

open Gretun.Net

def icmpIDMask : ℕ := 0xffff

def defaultMTU : ℕ := 1500

def icmpTypeEchoRequest : UInt8 := 8

def icmpSequence : UInt16 := 1

def icmpTypeEchoReply : ℕ := 0

/-! ## The echo request -/

/-- The 16-bit words of `b` added up, a last odd byte as the high half of one. -/
def sumWords : Bytes → UInt32 → UInt32
  | hi :: lo :: b, sum => sumWords b (sum + (hi.toUInt32 <<< 8 ||| lo.toUInt32))
  | [hi], sum => sum + hi.toUInt32 <<< 8
  | [], sum => sum

theorem toNat_shiftRight_sixteen (sum : UInt32) :
    (sum >>> 16).toNat = sum.toNat / 65536 := by
  simp [UInt32.toNat_shiftRight, Nat.shiftRight_eq_div_pow]

theorem toNat_carry (sum : UInt32) :
    ((sum &&& (0xffff : UInt32)) + (sum >>> 16)).toNat =
      sum.toNat % 65536 + sum.toNat / 65536 := by
  have hand : (sum &&& (0xffff : UInt32)).toNat = sum.toNat % 65536 := by
    rw [UInt32.toNat_and]
    exact Nat.and_two_pow_sub_one_eq_mod sum.toNat 16
  have hsmall : sum.toNat % 65536 + sum.toNat / 65536 < 2 ^ 32 := by
    have hlt := sum.toNat_lt
    omega
  rw [UInt32.toNat_add, toNat_shiftRight_sixteen, hand, Nat.mod_eq_of_lt hsmall]

def foldCarry (sum : UInt32) : UInt32 :=
  if sum >>> 16 ≠ 0 then
    foldCarry ((sum &&& (0xffff : UInt32)) + (sum >>> 16))
  else sum
termination_by sum.toNat
decreasing_by
  rename_i h
  have hne : (sum >>> 16).toNat ≠ 0 := fun h0 => h (UInt32.toNat.inj h0)
  rw [toNat_shiftRight_sixteen] at hne
  rw [toNat_carry]
  omega

def icmpChecksum (b : Bytes) : UInt16 := ~~~ (foldCarry (sumWords b 0)).toUInt16

def putUint16 (v : UInt16) : Bytes := [(v >>> 8).toUInt8, v.toUInt8]

def probeData : Bytes := "gretun-probe".toUTF8.toList

def buildEchoRequest (pid : ℕ) : Bytes :=
  let id := UInt16.ofNat (pid &&& icmpIDMask)
  let rest := putUint16 id ++ putUint16 icmpSequence ++ probeData
  let checksum := icmpChecksum ([icmpTypeEchoRequest, 0] ++ [0, 0] ++ rest)
  [icmpTypeEchoRequest, 0] ++ putUint16 checksum ++ rest

/-! ## One call -/

structure ProbeResult where
  target : String
  success : Bool := false
  rtt : Duration := 0
  error : String := ""
  timestamp : Time
  deriving DecidableEq

def failed (target : String) (timestamp : Time) (error : String) : ProbeResult where
  target := target
  timestamp := timestamp
  error := error

structure Packet where
  src : Addr
  bytes : Bytes
  deriving DecidableEq

structure Request where
  dst : Addr
  bytes : Bytes
  deriving DecidableEq

/-- `p` is the reply of the host that `req` was sent to: an echo reply with the
identifier, the sequence number and the data of the request. -/
def Packet.Answers (p : Packet) (req : Request) : Prop :=
  p.src = req.dst ∧ p.bytes.take 2 = [0, 0] ∧ p.bytes.drop 4 = req.bytes.drop 4

instance (p : Packet) (req : Request) : Decidable (p.Answers req) := by
  unfold Packet.Answers
  infer_instance

/-- What a probe is made with: `icmp.ParseMessage`, of which only the type of the
message is used, the text of a type, `net.ResolveIPAddr`, the process and the
deadlines. -/
structure Setting where
  parseMessage : Bytes → Except String ℕ
  typeText : ℕ → String
  resolveIPAddr : String → Except String Addr
  pid : ℕ
  timeout : Duration
  ctxDeadline : Option Time

def ctxErrText : CtxError → String
  | .canceled => "context canceled"
  | .deadlineExceeded => "context deadline exceeded"

def cancelledText (err : CtxError) : String :=
  let err := ctxErrText err
  s!"cancelled: {err}"

/-- How far a call of `Probe` is. From `listening` to `reading` the socket is open,
and `queue` holds what is still to be read from it. -/
inductive Phase where
  | called
  | begun (timestamp : Time)
  | listening (timestamp : Time) (queue : List Packet)
  | resolved (timestamp : Time) (queue : List Packet) (dst : Addr)
  | sent (timestamp : Time) (queue : List Packet) (start : Time)
  | reading (timestamp : Time) (queue : List Packet) (start deadline : Time)
  | returned (r : ProbeResult)
  deriving DecidableEq

inductive Call where
  | checkContext
  | listenPacket (err : Option String)
  | resolve
  | writeTo (err : Option String)
  | setReadDeadline (err : Option String)
  | readPacket
  | readTimeout (err : String)
  | readError (err : String)
  deriving DecidableEq

def receive (e : Setting) (target : String) (timestamp : Time) (rtt : Duration)
    (bytes : Bytes) : ProbeResult :=
  match e.parseMessage (bytes.take defaultMTU) with
  | .error err => failed target timestamp s!"failed to parse reply: {err}"
  | .ok type =>
      if type ≠ icmpTypeEchoReply then
        let text := e.typeText type
        failed target timestamp s!"unexpected ICMP type: {text}"
      else
        { target := target
          timestamp := timestamp
          success := true
          rtt := rtt }

def readDeadline (e : Setting) (now : Time) : Time :=
  match e.ctxDeadline with
  | some ctxDeadline =>
      if ctxDeadline < now + e.timeout then ctxDeadline else now + e.timeout
  | none => now + e.timeout

def readErrorText (ctxErr : Option CtxError) (err : String) : String :=
  ctxErr.elim s!"failed to receive reply: {err}" cancelledText

/-- One call of `Probe`; `none` when it is not the next one, or blocks. -/
def probeStep (e : Setting) (now : Time) (ctxErr : Option CtxError)
    (target : String) : Phase → Call → Option Phase
  | .called, .checkContext =>
      match ctxErr with
      | some err => some (.returned (failed target now (cancelledText err)))
      | none => some (.begun now)
  | .begun timestamp, .listenPacket (some err) =>
      some (.returned (failed target timestamp s!"failed to listen: {err}"))
  | .begun timestamp, .listenPacket none => some (.listening timestamp [])
  | .listening timestamp queue, .resolve =>
      match e.resolveIPAddr target with
      | .error err =>
          some (.returned
            (failed target timestamp s!"failed to resolve {target}: {err}"))
      | .ok dst => some (.resolved timestamp queue dst)
  | .resolved timestamp _ _, .writeTo (some err) =>
      some (.returned (failed target timestamp s!"failed to send ICMP: {err}"))
  | .resolved timestamp queue _, .writeTo none => some (.sent timestamp queue now)
  | .sent timestamp _ _, .setReadDeadline (some err) =>
      some (.returned (failed target timestamp s!"failed to set deadline: {err}"))
  | .sent timestamp queue start, .setReadDeadline none =>
      some (.reading timestamp queue start (readDeadline e now))
  | .reading timestamp (p :: _) start _, .readPacket =>
      some (.returned (receive e target timestamp (Time.sub now start) p.bytes))
  | .reading timestamp _ _ deadline, .readTimeout err =>
      if deadline ≤ now then
        some (.returned (failed target timestamp (readErrorText ctxErr err)))
      else none
  | .reading timestamp _ _ _, .readError err =>
      some (.returned (failed target timestamp (readErrorText ctxErr err)))
  | _, _ => none

def requestOf (e : Setting) : Phase → Call → Option Request
  | .resolved _ _ dst, .writeTo none => some ⟨dst, buildEchoRequest e.pid⟩
  | _, _ => none

def Phase.deliver (p : Packet) : Phase → Phase
  | .listening timestamp queue => .listening timestamp (queue ++ [p])
  | .resolved timestamp queue dst => .resolved timestamp (queue ++ [p]) dst
  | .sent timestamp queue start => .sent timestamp (queue ++ [p]) start
  | .reading timestamp queue start deadline =>
      .reading timestamp (queue ++ [p]) start deadline
  | ph => ph

def Phase.queue? : Phase → Option (List Packet)
  | .listening _ queue => some queue
  | .resolved _ queue _ => some queue
  | .sent _ queue _ => some queue
  | .reading _ queue _ _ => some queue
  | _ => none

def Phase.result? : Phase → Option ProbeResult
  | .returned r => some r
  | _ => none

/-- A packet that `Probe` takes for its reply: the message is an echo reply, whoever
sent it and whatever it answers. -/
def readsAsReply (e : Setting) (bytes : Bytes) : Bool :=
  match e.parseMessage (bytes.take defaultMTU) with
  | .ok type => type = icmpTypeEchoReply
  | .error _ => false

/-! ## What a call does -/

theorem receive_target (e : Setting) (target : String) (timestamp : Time)
    (rtt : Duration) (bytes : Bytes) :
    (receive e target timestamp rtt bytes).target = target := by
  unfold receive
  split
  · rfl
  · split <;> rfl

theorem receive_success (e : Setting) (target : String) (timestamp : Time)
    (rtt : Duration) (bytes : Bytes) :
    (receive e target timestamp rtt bytes).success = readsAsReply e bytes := by
  unfold receive readsAsReply
  cases e.parseMessage (bytes.take defaultMTU) with
  | error err => rfl
  | ok type => by_cases h : type = icmpTypeEchoReply <;> simp [h, failed]

theorem queue?_deliver (ph : Phase) (p : Packet) :
    (ph.deliver p).queue? = ph.queue?.map (· ++ [p]) := by
  cases ph <;> rfl

theorem result?_deliver (ph : Phase) (p : Packet) :
    (ph.deliver p).result? = ph.result? := by
  cases ph <;> rfl

/-- The ways on from a phase: failure, the check passed, a new socket, the next call
on the same socket, or the first packet read. -/
inductive Continues (e : Setting) (target : String) (ph : Phase) : Phase → Prop
  | fails (timestamp : Time) (error : String) :
      Continues e target ph (.returned (failed target timestamp error))
  | begins (timestamp : Time) : Continues e target ph (.begun timestamp)
  | listens (timestamp : Time) : Continues e target ph (.listening timestamp [])
  | keeps {ph' : Phase} (hqueue : ph'.queue? = ph.queue?)
      (hresult : ph'.result? = none) : Continues e target ph ph'
  | receives (timestamp : Time) (rtt : Duration) {p : Packet} {queue : List Packet}
      (hqueue : ph.queue? = some (p :: queue)) :
      Continues e target ph (.returned (receive e target timestamp rtt p.bytes))

theorem continues_probeStep {e : Setting} {now : Time} {ctxErr : Option CtxError}
    {target : String} {ph ph' : Phase} {c : Call}
    (h : probeStep e now ctxErr target ph c = some ph') :
    Continues e target ph ph' := by
  unfold probeStep at h
  split at h
  · split at h <;> cases h
    · exact .fails _ _
    · exact .begins _
  · cases h
    exact .fails _ _
  · cases h
    exact .listens _
  · split at h <;> cases h
    · exact .fails _ _
    · exact .keeps rfl rfl
  · cases h
    exact .fails _ _
  · cases h
    exact .keeps rfl rfl
  · cases h
    exact .fails _ _
  · cases h
    exact .keeps rfl rfl
  · cases h
    exact .receives _ _ rfl
  · split at h <;> cases h
    exact .fails _ _
  · cases h
    exact .fails _ _
  · cases h

/-- What is on the socket afterwards was there before, or the socket is new. -/
theorem Continues.queue {e : Setting} {target : String} {ph ph' : Phase}
    (h : Continues e target ph ph') {queue : List Packet}
    (hqueue : ph'.queue? = some queue) : ph.queue? = some queue ∨ queue = [] := by
  cases h with
  | fails timestamp error => cases hqueue
  | begins timestamp => cases hqueue
  | listens timestamp => exact Or.inr (Option.some.inj hqueue).symm
  | keeps hsame hresult => exact Or.inl (hsame.symm.trans hqueue)
  | receives timestamp rtt hfirst => cases hqueue

/-- The result names the target, and success means that the first packet on the
socket reads as an echo reply. -/
theorem Continues.result {e : Setting} {target : String} {ph ph' : Phase}
    (h : Continues e target ph ph') {r : ProbeResult} (hr : ph'.result? = some r) :
    r.target = target ∧ (r.success = true →
      ∃ p queue, ph.queue? = some (p :: queue) ∧ readsAsReply e p.bytes = true) := by
  cases h with
  | fails timestamp error =>
      obtain rfl := Option.some.inj hr
      exact ⟨rfl, by simp [failed]⟩
  | begins timestamp => cases hr
  | listens timestamp => cases hr
  | keeps hsame hresult => rw [hresult] at hr; cases hr
  | receives timestamp rtt hfirst =>
      obtain rfl := Option.some.inj hr
      refine ⟨receive_target .., fun hsuccess => ⟨_, _, hfirst, ?_⟩⟩
      rwa [receive_success] at hsuccess

end Health

end Gretun
