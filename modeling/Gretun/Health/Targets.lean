import Gretun.Foundation.Run
import Gretun.Health.Probe
import Mathlib.Data.List.AList

/-!
# Probing many hosts

`ProbeTargets` as the interleaving of its dispatch loop, one worker for each target
it has dispatched, and the kernel. A semaphore bounds the workers that are in
`Probe`. The kernel copies every ICMP packet to every open socket, and all requests
carry the same identifier and sequence number. `Probe` looks at neither, nor at the
address a packet comes from: the result for a target is that of whichever packet
reaches the socket of its worker first.
-/

namespace Gretun

namespace Health

open Gretun.Net
open Foundation.Run

abbrev Results := AList fun _ : String => ProbeResult

/-- How far a worker is. It holds a slot of the semaphore from `probing` to
`recorded`. -/
inductive Stage where
  | launched
  | probing (ph : Phase)
  | skipped (r : ProbeResult)
  | recorded
  | released
  | finished
  deriving DecidableEq

structure Worker where
  target : String
  stage : Stage
  deriving DecidableEq

def Stage.deliver (p : Packet) : Stage → Stage
  | .probing ph => .probing (ph.deliver p)
  | stage => stage

def Worker.deliver (p : Packet) (w : Worker) : Worker :=
  { w with stage := w.stage.deliver p }

inductive WireEvent where
  | sent (req : Request)
  | arrived (p : Packet)
  deriving DecidableEq

structure Job where
  setting : Setting
  targets : List String
  concurrency : ℤ

def Job.slots (job : Job) : ℕ :=
  if job.concurrency ≤ 0 ∨ job.concurrency > job.targets.length then
    job.targets.length
  else job.concurrency.toNat

/-- A call of `ProbeTargets`. `sem` counts the slots in use, `returned` is the map
once the call is over, `wire` the history of the requests and packets. -/
structure Pool where
  now : Time
  ctxErr : Option CtxError
  remaining : List String
  dispatching : Bool
  sem : ℕ
  workers : List Worker
  results : Results
  returned : Option Results
  wire : List WireEvent

def Pool.start (job : Job) (now : Time) : Pool where
  now := now
  ctxErr := none
  remaining := job.targets
  dispatching := job.targets ≠ []
  sem := 0
  workers := []
  results := ∅
  returned := if job.targets = [] then some ∅ else none
  wire := []

inductive Move where
  | acquire
  | skip
  | call (c : Call)
  | record
  | release
  | done
  deriving DecidableEq

inductive Action where
  | dispatch
  | move (i : ℕ) (m : Move)
  | wait
  | arrive (p : Packet)
  | cancel (err : CtxError)
  | tick (d : ℕ)
  deriving DecidableEq

namespace Pool

def dispatch (s : Pool) : Pool :=
  match s.dispatching, s.ctxErr, s.remaining with
  | true, none, target :: rest =>
      { s with
        remaining := rest
        workers := s.workers ++ [⟨target, .launched⟩] }
  | _, _, _ => { s with dispatching := false }

def setStage (s : Pool) (i : ℕ) (w : Worker) (stage : Stage) : Pool :=
  { s with workers := s.workers.set i { w with stage := stage } }

/-- A move of worker `i`; the pool stays as it is when the move is not the next one
of the worker, or blocks. -/
def move (job : Job) (s : Pool) (i : ℕ) (w : Worker) : Move → Pool
  | .acquire =>
      if w.stage = .launched ∧ s.sem < job.slots then
        { s.setStage i w (.probing .called) with sem := s.sem + 1 }
      else s
  | .skip =>
      match w.stage, s.ctxErr with
      | .launched, some err =>
          s.setStage i w (.skipped (failed w.target s.now (cancelledText err)))
      | _, _ => s
  | .call c =>
      match w.stage with
      | .probing ph =>
          match probeStep job.setting s.now s.ctxErr w.target ph c with
          | some ph' =>
              { s.setStage i w (.probing ph') with
                wire := s.wire ++
                  ((requestOf job.setting ph c).map WireEvent.sent).toList }
          | none => s
      | _ => s
  | .record =>
      match w.stage with
      | .probing (.returned r) =>
          { s.setStage i w .recorded with results := s.results.insert w.target r }
      | .skipped r =>
          { s.setStage i w .released with results := s.results.insert w.target r }
      | _ => s
  | .release =>
      if w.stage = .recorded then
        { s.setStage i w .released with sem := s.sem - 1 }
      else s
  | .done => if w.stage = .released then s.setStage i w .finished else s

def wait (s : Pool) : Pool :=
  if s.dispatching = false ∧ (∀ w ∈ s.workers, w.stage = .finished) ∧
      s.returned = none then
    { s with returned := some s.results }
  else s

def arrive (s : Pool) (p : Packet) : Pool :=
  { s with
    workers := s.workers.map (·.deliver p)
    wire := s.wire ++ [.arrived p] }

def step (job : Job) (s : Pool) : Action → Pool
  | .dispatch => s.dispatch
  | .move i m =>
      match s.workers[i]? with
      | some w => s.move job i w m
      | none => s
  | .wait => s.wait
  | .arrive p => s.arrive p
  | .cancel err => { s with ctxErr := s.ctxErr <|> some err }
  | .tick d => { s with now := s.now + d }

end Pool

/-! ## Replies and who sent them -/

def WireEvent.request? : WireEvent → Option Request
  | .sent req => some req
  | .arrived _ => none

def WireEvent.packet? : WireEvent → Option Packet
  | .sent _ => none
  | .arrived p => some p

def requests (wire : List WireEvent) : List Request :=
  wire.filterMap WireEvent.request?

/-- A packet from the address of `target` has arrived that answers a request sent
before. -/
def Answered (job : Job) (wire : List WireEvent) (target : String) : Prop :=
  ∃ before p after, wire = before ++ .arrived p :: after ∧
    job.setting.resolveIPAddr target = .ok p.src ∧
    ∃ req ∈ requests before, p.Answers req

theorem Answered.append {job : Job} {wire : List WireEvent} {target : String}
    (h : Answered job wire target) (more : List WireEvent) :
    Answered job (wire ++ more) target := by
  obtain ⟨before, p, after, rfl, hanswer⟩ := h
  refine ⟨before, p, after ++ more, ?_, hanswer⟩
  rw [List.append_assoc, List.cons_append]

def Stage.queue? : Stage → Option (List Packet)
  | .probing ph => ph.queue?
  | _ => none

def Stage.result? : Stage → Option ProbeResult
  | .probing ph => ph.result?
  | .skipped r => some r
  | _ => none

theorem Stage.queue?_deliver (stage : Stage) (p : Packet) :
    (stage.deliver p).queue? = stage.queue?.map (· ++ [p]) := by
  cases stage with
  | probing ph => exact Health.queue?_deliver ph p
  | _ => rfl

theorem Stage.result?_deliver (stage : Stage) (p : Packet) :
    (stage.deliver p).result? = stage.result? := by
  cases stage with
  | probing ph => exact Health.result?_deliver ph p
  | _ => rfl

theorem answered_iff_getElem? {job : Job} {wire : List WireEvent} {target : String} :
    Answered job wire target ↔ ∃ n ∈ List.range wire.length,
      ∃ p ∈ wire[n]?.bind WireEvent.packet?,
        job.setting.resolveIPAddr target = .ok p.src ∧
          ∃ req ∈ requests (wire.take n), p.Answers req := by
  constructor
  · rintro ⟨before, p, after, rfl, hanswers⟩
    refine ⟨before.length, List.mem_range.2 (by simp), p, by simp [WireEvent.packet?], ?_⟩
    rwa [List.take_left]
  · rintro ⟨n, -, p, hp, hanswers⟩
    obtain ⟨e, he, hpacket⟩ := Option.bind_eq_some_iff.1 hp
    obtain ⟨hn, rfl⟩ := List.getElem?_eq_some_iff.1 he
    refine ⟨wire.take n, p, wire.drop (n + 1), ?_, hanswers⟩
    have harrived : wire[n] = .arrived p := by
      cases h : wire[n] <;> simp_all [WireEvent.packet?]
    rw [← harrived, List.getElem_cons_drop, List.take_append_drop]

instance (job : Job) (wire : List WireEvent) (target : String) :
    Decidable (Answered job wire target) :=
  decidable_of_iff' _ answered_iff_getElem?

/-- An echo reply that is the first packet to reach an open socket comes from the
target of that socket's worker, in answer to a request of this process, unless that
target has answered already. -/
def Pool.Expects (job : Job) (s : Pool) : Action → Prop
  | .arrive p =>
      readsAsReply job.setting p.bytes = true →
        ∀ w ∈ s.workers, w.stage.queue? = some [] → ¬ Answered job s.wire w.target →
          job.setting.resolveIPAddr w.target = .ok p.src ∧
            ∃ req ∈ requests s.wire, p.Answers req
  | _ => True

instance (job : Job) (s : Pool) (a : Action) : Decidable (s.Expects job a) := by
  cases a <;> unfold Pool.Expects <;> infer_instance

structure Worker.Backed (job : Job) (wire : List WireEvent) (w : Worker) : Prop where
  queue : ∀ p rest, w.stage.queue? = some (p :: rest) →
    readsAsReply job.setting p.bytes = true → Answered job wire w.target
  result : ∀ r, w.stage.result? = some r → r.success = true →
    Answered job wire w.target

def Results.Backed (job : Job) (wire : List WireEvent) (m : Results) : Prop :=
  ∀ target r, m.lookup target = some r → r.success = true →
    Answered job wire target

structure Pool.Backed (job : Job) (s : Pool) : Prop where
  workers : ∀ w ∈ s.workers, w.Backed job s.wire
  results : s.results.Backed job s.wire
  returned : ∀ m, s.returned = some m → Results.Backed job s.wire m

theorem Worker.Backed.append {job : Job} {wire : List WireEvent} {w : Worker}
    (h : w.Backed job wire) (more : List WireEvent) : w.Backed job (wire ++ more) :=
  ⟨fun p rest hqueue hp => (h.queue p rest hqueue hp).append more,
    fun r hr hsuccess => (h.result r hr hsuccess).append more⟩

theorem Results.Backed.append {job : Job} {wire : List WireEvent} {m : Results}
    (h : m.Backed job wire) (more : List WireEvent) : m.Backed job (wire ++ more) :=
  fun target r hr hsuccess => (h target r hr hsuccess).append more

theorem Results.Backed.insert {job : Job} {wire : List WireEvent} {m : Results}
    (h : m.Backed job wire) {target : String} {r : ProbeResult}
    (hr : r.success = true → Answered job wire target) :
    Results.Backed job wire (m.insert target r) := by
  intro t r' hlookup hsuccess
  by_cases ht : t = target
  · subst ht
    rw [AList.lookup_insert] at hlookup
    obtain rfl := Option.some.inj hlookup
    exact hr hsuccess
  · rw [AList.lookup_insert_ne ht] at hlookup
    exact h t r' hlookup hsuccess

namespace Pool

theorem backed_start (job : Job) (now : Time) : (start job now).Backed job where
  workers w hw := by cases hw
  results target r h := by cases h
  returned m hm target r h := by
    unfold start at hm
    split at hm <;> cases hm
    cases h

/-- Workers are added or moved, and the history goes on. -/
theorem Backed.of_workers {job : Job} {s s' : Pool} (h : s.Backed job)
    {more : List WireEvent} (hwire : s'.wire = s.wire ++ more)
    (hworkers : ∀ w ∈ s'.workers, w ∈ s.workers ∨ w.Backed job s'.wire)
    (hresults : s'.results = s.results) (hreturned : s'.returned = s.returned) :
    s'.Backed job where
  workers w hw := by
    rcases hworkers w hw with hold | hnew
    · rw [hwire]
      exact (h.workers w hold).append more
    · exact hnew
  results := by
    rw [hwire, hresults]
    exact h.results.append more
  returned m hm := by
    rw [hwire]
    exact (h.returned m (hreturned ▸ hm)).append more

theorem Backed.setStage {job : Job} {s : Pool} (h : s.Backed job) (i : ℕ)
    {w : Worker} {stage : Stage}
    (hstage : Worker.Backed job s.wire { w with stage := stage }) :
    (s.setStage i w stage).Backed job := by
  refine h.of_workers (List.append_nil _).symm (fun w' hw' => ?_) rfl rfl
  rcases List.mem_or_eq_of_mem_set hw' with hold | rfl
  · exact Or.inl hold
  · exact Or.inr hstage

theorem backed_of_none {job : Job} {wire : List WireEvent} {w : Worker}
    (hqueue : w.stage.queue? = none) (hresult : w.stage.result? = none) :
    w.Backed job wire :=
  ⟨fun p rest h => by simp [hqueue] at h, fun r h => by simp [hresult] at h⟩

theorem backed_of_continues {job : Job} {wire : List WireEvent} {target : String}
    {ph ph' : Phase} (hcont : Continues job.setting target ph ph')
    (h : Worker.Backed job wire ⟨target, .probing ph⟩) :
    Worker.Backed job wire ⟨target, .probing ph'⟩ where
  queue p rest hqueue hp := by
    rcases hcont.queue hqueue with hold | hnil
    · exact h.queue p rest hold hp
    · cases hnil
  result r hr hsuccess := by
    obtain ⟨p, rest, hqueue, hp⟩ := (hcont.result hr).2 hsuccess
    exact h.queue p rest hqueue hp

theorem Backed.call {job : Job} {s : Pool} (h : s.Backed job) {i : ℕ} {w : Worker}
    (hw : w ∈ s.workers) (c : Call) : (s.move job i w (.call c)).Backed job := by
  obtain ⟨target, stage⟩ := w
  cases stage with
  | probing ph =>
      cases hstep : probeStep job.setting s.now s.ctxErr target ph c with
      | none => simpa only [move, hstep] using h
      | some ph' =>
          simp only [move, hstep]
          refine h.of_workers rfl (fun w' hw' => ?_) rfl rfl
          rcases List.mem_or_eq_of_mem_set hw' with hold | rfl
          · exact Or.inl hold
          · exact Or.inr ((backed_of_continues (continues_probeStep hstep)
              (h.workers _ hw)).append _)
  | launched => exact h
  | skipped r => exact h
  | recorded => exact h
  | released => exact h
  | finished => exact h

theorem Backed.record {job : Job} {s : Pool} (h : s.Backed job) {i : ℕ} {w : Worker}
    (hw : w ∈ s.workers) : (s.move job i w .record).Backed job := by
  have stored : ∀ {stage : Stage} {r : ProbeResult}, stage.queue? = none →
      stage.result? = none → w.stage.result? = some r →
      ({ s.setStage i w stage with
        results := s.results.insert w.target r } : Pool).Backed job := by
    intro stage r hqueue hresult hr
    have hset : (s.setStage i w stage).Backed job :=
      h.setStage i (backed_of_none hqueue hresult)
    exact ⟨hset.workers, hset.results.insert ((h.workers w hw).result r hr),
      hset.returned⟩
  simp only [move]
  split
  · rename_i r hstage
    exact stored rfl rfl (by rw [hstage]; rfl)
  · rename_i r hstage
    exact stored rfl rfl (by rw [hstage]; rfl)
  · exact h

theorem Backed.move {job : Job} {s : Pool} (h : s.Backed job) {i : ℕ} {w : Worker}
    (hw : w ∈ s.workers) (m : Move) : (s.move job i w m).Backed job := by
  cases m with
  | acquire =>
      simp only [Pool.move]
      split
      · have hset := h.setStage i (backed_of_none (w := ⟨w.target, .probing .called⟩)
          rfl rfl)
        exact ⟨hset.workers, hset.results, hset.returned⟩
      · exact h
  | skip =>
      simp only [Pool.move]
      split
      · refine h.setStage i ⟨fun p rest hqueue => ?_, fun r hr hsuccess => ?_⟩
        · cases hqueue
        · obtain rfl := Option.some.inj hr
          cases hsuccess
      · exact h
  | call c => exact h.call hw c
  | record => exact h.record hw
  | release =>
      simp only [Pool.move]
      split
      · have hset := h.setStage i (backed_of_none (w := ⟨w.target, .released⟩) rfl rfl)
        exact ⟨hset.workers, hset.results, hset.returned⟩
      · exact h
  | done =>
      simp only [Pool.move]
      split
      · exact h.setStage i (backed_of_none rfl rfl)
      · exact h

theorem Backed.arrive {job : Job} {s : Pool} (h : s.Backed job) {p : Packet}
    (hexpects : s.Expects job (.arrive p)) : (s.arrive p).Backed job := by
  refine h.of_workers rfl (fun w' hw' => Or.inr ?_) rfl rfl
  obtain ⟨w, hw, rfl⟩ := List.mem_map.1 hw'
  constructor
  · intro first rest hqueue hfirst
    rw [Worker.deliver, Stage.queue?_deliver, Option.map_eq_some_iff] at hqueue
    obtain ⟨queue, hqueue, hcons⟩ := hqueue
    cases queue with
    | nil =>
        obtain rfl : p = first := (List.cons.inj hcons).1
        by_cases hbefore : Answered job s.wire w.target
        · exact hbefore.append _
        · exact ⟨s.wire, p, [], rfl, hexpects hfirst w hw hqueue hbefore⟩
    | cons q queue =>
        obtain rfl : q = first := (List.cons.inj hcons).1
        exact ((h.workers w hw).queue q queue hqueue hfirst).append _
  · intro r hr
    rw [Worker.deliver, Stage.result?_deliver] at hr
    exact fun hsuccess => ((h.workers w hw).result r hr hsuccess).append _

theorem Backed.dispatch {job : Job} {s : Pool} (h : s.Backed job) :
    s.dispatch.Backed job := by
  unfold Pool.dispatch
  split
  · refine h.of_workers (List.append_nil _).symm (fun w hw => ?_) rfl rfl
    rcases List.mem_append.1 hw with hold | hnew
    · exact Or.inl hold
    · rw [List.mem_singleton.1 hnew]
      exact Or.inr (backed_of_none rfl rfl)
  · exact ⟨h.workers, h.results, h.returned⟩

theorem Backed.wait {job : Job} {s : Pool} (h : s.Backed job) :
    s.wait.Backed job := by
  unfold Pool.wait
  split
  · refine ⟨h.workers, h.results, fun m hm => ?_⟩
    obtain rfl := Option.some.inj hm
    exact h.results
  · exact h

theorem Backed.step {job : Job} {s : Pool} (h : s.Backed job) (a : Action)
    (hexpects : s.Expects job a) : (s.step job a).Backed job := by
  cases a with
  | dispatch => exact h.dispatch
  | move i m =>
      cases hw : s.workers[i]? with
      | none => simpa only [Pool.step, hw] using h
      | some w => simpa only [Pool.step, hw] using h.move (List.mem_of_getElem? hw) m
  | wait => exact h.wait
  | arrive p => exact h.arrive hexpects
  | cancel err => exact ⟨h.workers, h.results, h.returned⟩
  | tick d => exact ⟨h.workers, h.results, h.returned⟩

theorem backed_of_expects {job : Job} {now : Time} {as : List Action}
    (hexpects : EachStep (Pool.step job) (Pool.Expects job) (start job now) as) :
    Backed job (as.foldl (Pool.step job) (start job now)) :=
  invariant_of_eachStep (fun _ a h ha => h.step a ha) (backed_start job now) hexpects

/-- As long as every echo reply that is the first packet on an open socket is one to
the worker of that socket, or comes after one, a target is only reported reachable when
its address has answered a request. -/
theorem answered_of_success (job : Job) (now : Time) (as : List Action)
    (hexpects : EachStep (Pool.step job) (Pool.Expects job) (start job now) as)
    (m : Results) (hm : (as.foldl (Pool.step job) (start job now)).returned = some m)
    (target : String) (r : ProbeResult) (hr : m.lookup target = some r)
    (hsuccess : r.success = true) :
    Answered job (as.foldl (Pool.step job) (start job now)).wire target :=
  (backed_of_expects hexpects).returned m hm target r hr hsuccess

/-- Messages of at least eight bytes, and two hosts with their addresses. -/
def sampleSetting : Setting where
  parseMessage b :=
    if b.length < 8 then .error "message too short" else .ok (b.headD 0).toNat
  typeText _ := "destination unreachable"
  resolveIPAddr target :=
    if target = "10.0.0.1" then .ok (.v4 0x0a000001)
    else if target = "10.0.0.2" then .ok (.v4 0x0a000002)
    else .error "no such host"
  pid := 4242
  timeout := 3 * Time.second
  ctxDeadline := none

def sampleReply : Packet where
  src := .v4 0x0a000001
  bytes := [0, 0, 0, 0] ++ (buildEchoRequest 4242).drop 4

def sampleSends (i : ℕ) : List Action :=
  [.acquire, .call .checkContext, .call (.listenPacket none), .call .resolve,
    .call (.writeTo none), .call (.setReadDeadline none)].map (.move i)

def sampleReads (i : ℕ) : List Action :=
  [.call .readPacket, .record, .release, .done].map (.move i)

def twoTargets : Job where
  setting := sampleSetting
  targets := ["10.0.0.1", "10.0.0.2"]
  concurrency := 0

def outcome (job : Job) (as : List Action) : Results :=
  (as.foldl (Pool.step job) (start job 1)).returned.getD ∅

theorem returned_eq_outcome {job : Job} {as : List Action}
    (h : (as.foldl (Pool.step job) (start job 1)).returned.isSome = true) :
    (as.foldl (Pool.step job) (start job 1)).returned = some (outcome job as) := by
  obtain ⟨m, hm⟩ := Option.isSome_iff_exists.1 h
  rw [outcome, hm, Option.getD_some]

/-- The result for a host that answered five milliseconds after it was asked. -/
def reachable (target : String) : ProbeResult where
  target := target
  success := true
  rtt := 5000000
  timestamp := 1

/-- The hosts of `twoTargets`, one after the other. -/
def inTurn : Job := { twoTargets with concurrency := 1 }

def inTurnRun : List Action :=
  [.dispatch, .dispatch, .dispatch] ++
    sampleSends 0 ++ [.tick 5000000, .arrive sampleReply] ++ sampleReads 0 ++
    sampleSends 1 ++ [.arrive { sampleReply with src := .v4 0x0a000002 }] ++
    sampleReads 1 ++ [.wait]

/-- Two hosts are asked, one after the other, and both answer. -/
theorem answered_of_inTurnRun :
    Answered inTurn (inTurnRun.foldl (Pool.step inTurn) (start inTurn 1)).wire
        "10.0.0.1" ∧
      Answered inTurn (inTurnRun.foldl (Pool.step inTurn) (start inTurn 1)).wire
        "10.0.0.2" := by
  have hexpects : EachStep (Pool.step inTurn) (Pool.Expects inTurn) (start inTurn 1)
      inTurnRun := by decide +kernel
  have hm : (inTurnRun.foldl (Pool.step inTurn) (start inTurn 1)).returned =
      some (outcome inTurn inTurnRun) := returned_eq_outcome (by decide +kernel)
  exact ⟨answered_of_success inTurn 1 inTurnRun hexpects _ hm "10.0.0.1"
      (reachable "10.0.0.1") (by decide +kernel) rfl,
    answered_of_success inTurn 1 inTurnRun hexpects _ hm "10.0.0.2"
      { reachable "10.0.0.2" with rtt := 0, timestamp := 5000001 } (by decide +kernel) rfl⟩

def twoRun : List Action :=
  [.dispatch, .dispatch, .dispatch] ++ sampleSends 0 ++ sampleSends 1 ++
    [.tick 5000000, .arrive sampleReply] ++ sampleReads 0 ++ sampleReads 1 ++ [.wait]

/-- Two hosts are asked and the first one answers: both are reported reachable, the
second one without any packet from its address. -/
theorem not_answered_of_twoRun :
    (twoRun.foldl (Pool.step twoTargets) (start twoTargets 1)).returned =
        some (outcome twoTargets twoRun) ∧
      (outcome twoTargets twoRun).lookup "10.0.0.2" = some (reachable "10.0.0.2") ∧
      (reachable "10.0.0.2").success = true ∧
      ¬ Answered twoTargets
        (twoRun.foldl (Pool.step twoTargets) (start twoTargets 1)).wire
        "10.0.0.2" := by
  refine ⟨returned_eq_outcome (by decide +kernel), by decide +kernel, rfl, ?_⟩
  rintro ⟨before, p, after, hwire, hsrc, -⟩
  have harrived : WireEvent.arrived p ∈
      (twoRun.foldl (Pool.step twoTargets) (start twoTargets 1)).wire := by
    rw [hwire]
    simp
  have honly : (twoRun.foldl (Pool.step twoTargets) (start twoTargets 1)).wire.filterMap
      WireEvent.packet? = [sampleReply] := by
    decide +kernel
  have hp : p ∈ [sampleReply] :=
    honly ▸ List.mem_filterMap.2 ⟨.arrived p, harrived, rfl⟩
  rw [List.mem_singleton.1 hp] at hsrc
  exact absurd hsrc (by decide +kernel)

end Pool

end Health

end Gretun
