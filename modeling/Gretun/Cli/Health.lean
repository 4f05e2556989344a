import Gretun.Cli.Session
import Gretun.Health.Bounded
import Gretun.Health.Multiple

/-!
# The commands that probe

`probe` makes several probes of one host and fails when it is not healthy; with JSON
output it fails only when it cannot write. `health` lists the tunnels, probes their far
ends side by side and shows a row for each tunnel. What a row says is followed down to the
kernel and to the wire: it is about a tunnel that is there, and if it says healthy, then
the far end of that tunnel has answered a request.
-/

namespace Gretun

namespace Cli

open Gretun.Net
open Gretun.Tunnel
open Gretun.Health
open Foundation.Command
open Foundation.Run

/-! ## One host -/

def probeError (results : List ProbeResult) (count threshold : Int64) : String :=
  let successes := results.countP (·.success)
  s!"probe failed: only {successes}/{count} successful (threshold: {threshold})"

/-- `runProbe`, after `ProbeMultiple`; `encoded` is the result of writing the JSON
output. -/
def runProbe (jsonOutput : Bool) (encoded : Except String Unit) (count threshold : Int64)
    (a : Bool × List ProbeResult) : Except String Unit :=
  if jsonOutput then encoded
  else if a.1 then .ok ()
  else .error (probeError a.2 count threshold)

theorem runProbe_eq_ok {encoded : Except String Unit} {count threshold : Int64}
    {a : Bool × List ProbeResult} :
    runProbe false encoded count threshold a = .ok () ↔ a.1 = true := by
  unfold runProbe
  cases a.1 <;> simp

/-- `probe` panics just for a count that is negative or whose results exceed the largest
allocation, and ends for lack of memory just when a smaller one is not to be had.
Otherwise, whatever the probes say and whenever the context is done, the results are those
of the probes made, only a context that is done cuts them short, and without JSON output
the command succeeds just when all probes were made and the threshold is reached. -/
theorem runProbe_spec (memory : ℕ) (encoded : Except String Unit)
    (count threshold : Int64) (ω : ℕ → MultipleCall → Turn) :
    (probeMultiple memory count threshold = .error .panics ↔
        count.toInt < 0 ∨ maxAlloc < probeResultSize * count.toInt) ∧
      (probeMultiple memory count threshold = .error .outOfMemory ↔
        0 ≤ count.toInt ∧ probeResultSize * count.toInt ≤ maxAlloc ∧
          memory < probeResultSize * count.toInt) ∧
      ∀ m, probeMultiple memory count threshold = .ok m →
        Judged count.toInt.toNat threshold.toInt
            (m.run Surroundings.handle ω ⟨false, []⟩).1
            (m.run Surroundings.handle ω ⟨false, []⟩).2 ∧
          (runProbe false encoded count threshold
              (m.run Surroundings.handle ω ⟨false, []⟩).1 = .ok () ↔
            (m.run Surroundings.handle ω ⟨false, []⟩).2.probed.length = count.toInt ∧
              threshold.toInt ≤ ((m.run Surroundings.handle ω ⟨false, []⟩).2.probed.countP
                (·.success) : ℕ)) := by
  unfold probeMultiple
  rw [makeslice_eq]
  by_cases hpanics : count.toInt < 0 ∨ (maxAlloc : ℤ) < probeResultSize * count.toInt
  · rw [if_pos hpanics]
    refine ⟨iff_of_true rfl hpanics, iff_of_false (by rintro ⟨⟩) ?_, fun _ hm => nomatch hm⟩
    omega
  · rw [if_neg hpanics]
    by_cases hmemory : (memory : ℤ) < probeResultSize * count.toInt
    · rw [if_pos hmemory]
      refine ⟨iff_of_false (by rintro ⟨⟩) hpanics, iff_of_true rfl ?_,
        fun _ hm => nomatch hm⟩
      omega
    · rw [if_neg hmemory]
      refine ⟨iff_of_false (by rintro ⟨⟩) hpanics,
        iff_of_false (by rintro ⟨⟩) fun h => hmemory h.2.2, fun m hm => ?_⟩
      obtain rfl := Except.ok.inj hm
      have hwp : Prog.wp Surroundings.handle (fun _ _ => True)
          (probeLoop threshold.toInt count.toInt.toNat [] 0)
          (Judged count.toInt.toNat threshold.toInt) ⟨false, []⟩ :=
        wp_probeLoop (s := ⟨false, []⟩) threshold.toInt (Nat.zero_add _)
      have hjudged := Prog.run_of_wp (fun _ _ => trivial) hwp (ω := ω)
      refine ⟨hjudged, ?_⟩
      rw [runProbe_eq_ok, hjudged.healthy, ← hjudged.results]
      have hlength : ∀ n : ℕ, n = count.toInt.toNat ↔ (n : ℤ) = count.toInt := by omega
      rw [hlength]

/-! ## All tunnels -/

structure HealthRow where
  name : String
  remote : String
  healthy : Bool := false
  rttMS : Float := 0

def milliseconds (d : Duration) : Float := Float.ofInt d / 1000000

def healthTargets (tunnels : List Status) : List String :=
  (tunnels.map (·.remoteIP)).filter (· ≠ "")

def healthRow (results : Results) (t : Status) : HealthRow :=
  match results.lookup t.remoteIP with
  | some r =>
      { name := t.name
        remote := t.remoteIP
        healthy := r.success
        rttMS := if r.success then milliseconds r.rtt else 0 }
  | none => { name := t.name, remote := t.remoteIP }

def healthRows (tunnels : List Status) (results : Results) : List HealthRow :=
  tunnels.map (healthRow results)

theorem healthRow_name (results : Results) (t : Status) :
    (healthRow results t).name = t.name := by
  unfold healthRow
  split <;> rfl

theorem healthRow_remote (results : Results) (t : Status) :
    (healthRow results t).remote = t.remoteIP := by
  unfold healthRow
  split <;> rfl

theorem healthRow_healthy (results : Results) (t : Status) :
    (healthRow results t).healthy =
      ((results.lookup t.remoteIP).elim false (·.success)) := by
  unfold healthRow
  cases results.lookup t.remoteIP <;> rfl

theorem Host.Reports.remoteIP {h : Host} {name : String} {s : Status}
    (hs : h.Reports name s) :
    ∃ g, h.link name = some (.gretun g) ∧ s.remoteIP = ipToString g.remoteIP := by
  obtain ⟨g, hg, rfl | rfl⟩ := hs
  · exact ⟨g, hg, rfl⟩
  · refine ⟨g, hg, ?_⟩
    unfold Status.withAddrs
    split <;> rfl

structure HealthReport (k : Kernel) (job : Job) (s : Pool) (rows : List HealthRow) :
    Prop where
  nodup : (rows.map (·.name)).Nodup
  complete : ∀ name g, k.links.lookup name = some (.gretun g) →
    ∃ row ∈ rows, row.name = name
  tunnels : ∀ row ∈ rows, ∃ g, k.links.lookup row.name = some (.gretun g) ∧
    row.remote = ipToString g.remoteIP
  healthy : ∀ row ∈ rows, row.healthy = true → Answered job s.wire row.remote
  probed : s.ctxErr = none → ∀ row ∈ rows, row.remote ≠ "" →
    ∃ r, s.results.lookup row.remote = some r ∧ r.target = row.remote ∧
      row.healthy = r.success

def sampleTunnel (name : String) (remoteIP : IP) : Link :=
  .gretun { gretunFor sampleConfig with attrs := { name := name }, remoteIP := remoteIP }

def tunnelKernel : Kernel :=
  withLink (withLink Kernel.empty (sampleTunnel "tun1" [10, 0, 0, 2]))
    (sampleTunnel "tun0" [10, 0, 0, 1])

def tunnelList : List Status :=
  ((exec (Tunnel.list none) calm tunnelKernel).1.toOption).getD []

/-- The rows when the far ends are asked one after the other and both answer. -/
def tunnelRows : List HealthRow :=
  healthRows tunnelList (Pool.outcome Pool.inTurn Pool.inTurnRun)

end Cli

end Gretun
