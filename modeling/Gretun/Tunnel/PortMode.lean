import Gretun.Tunnel.Created

/-!
# The mode of a receive port

The kernel knows a receive port by its family and number, and a request for an open
port answers `EEXIST` whatever mode it was opened in. `EnsureFOU` takes that answer
for success. So the port of a new tunnel is in the mode the tunnel needs exactly if it
was closed before, or open in that mode.
-/

namespace Gretun

namespace Tunnel

open Gretun.Net
open Foundation.Command

def Fou.SameMode (f g : Fou) : Prop :=
  f.protocol = g.protocol ∧ f.encapType = g.encapType

instance (f g : Fou) : Decidable (f.SameMode g) :=
  inferInstanceAs (Decidable (_ ∧ _))

/-- A request for a receive port answers `EEXIST` only when the port is open. -/
def ExactFouAdd : NlCall → Fault → Prop
  | .fouAdd _, f => f ≠ some (.errno .EEXIST)
  | _, _ => True

def PortFits (cfg : Config) (k : Kernel) : Prop :=
  ∀ fou, k.fous.lookup (afInet, cfg.encapDport) = some fou →
    fou.SameMode (fouFor cfg.encapDport cfg.encap)

/-- The receive port of `cfg` is open in the mode `EnsureFOU` asks for, and the link of
`cfg` encapsulates in that mode. -/
def PortMatches (cfg : Config) (k : Kernel) : Prop :=
  ∃ fou g, k.fous.lookup (afInet, cfg.encapDport) = some fou ∧
    fou.SameMode (fouFor cfg.encapDport cfg.encap) ∧
    k.links.lookup cfg.name = some (.gretun g) ∧
    g.encapType = BitVec.ofNat 16 fou.encapType

/-- The port that was open is still there, and a port that was closed is opened as it
was asked for. -/
theorem lookup_fouAdd (k : Kernel) (fou : Fou) :
    (k.fouAdd fou).2.fous.lookup fou.key = some ((k.fous.lookup fou.key).getD fou) := by
  unfold Kernel.fouAdd
  split
  · rename_i hopen
    obtain ⟨old, hold⟩ := Option.isSome_iff_exists.mp (AList.lookup_isSome.mpr hopen)
    rw [hold, Option.getD_some]
  · rename_i hclosed
    rw [AList.lookup_insert, AList.lookup_eq_none.mpr hclosed, Option.getD_none]

/-- The constants of the receive port and of the link are the same. -/
theorem gretunFor_encapType {cfg : Config} (h : cfg.encap ≠ .none) :
    (gretunFor cfg).encapType =
      BitVec.ofNat 16 (fouFor cfg.encapDport cfg.encap).encapType := by
  rw [gretunFor, applyEncap, if_neg h]
  cases cfg.encap <;> rfl

theorem getD_sameMode_iff (old : Option Fou) (fou : Fou) :
    (old.getD fou).SameMode fou ↔ ∀ f, old = some f → f.SameMode fou := by
  cases old with
  | none => exact iff_of_true ⟨rfl, rfl⟩ fun f hf => (by cases hf)
  | some f =>
      exact ⟨fun h f' hf' => Option.some.inj hf' ▸ h, fun h => h f rfl⟩

/-- After a successful `Create` the receive port of an encapsulated tunnel is in the mode
of the tunnel exactly if it was closed before the call, or open in that mode. -/
theorem create_portMatches_iff (ctx : Option CtxError) (cfg : Config) (k : Kernel)
    (ω : ℕ → NlCall → Fault) (hencap : cfg.encap = .fou ∨ cfg.encap = .gue)
    (hexact : ∀ n c, ExactFouAdd c (ω n c))
    (hok : (exec (create ctx cfg) ω k).1 = .ok ()) :
    PortMatches cfg (exec (create ctx cfg) ω k).2 ↔ PortFits cfg k := by
  have hne : cfg.encap ≠ .none := by
    rcases hencap with h | h <;> rw [h] <;> decide
  cases ctx with
  | some e => cases hok
  | none =>
      have hmade := made_exec cfg k hexact
      rw [hok] at hmade
      have hports := hmade.fous rfl fun fou h => h rfl
      rw [Kernel.portsFor, if_neg hne] at hports
      have hfou : (exec (create none cfg) ω k).2.fous.lookup (afInet, cfg.encapDport) =
          some ((k.fous.lookup (afInet, cfg.encapDport)).getD
            (fouFor cfg.encapDport cfg.encap)) := by
        rw [hports]
        exact lookup_fouAdd k (fouFor cfg.encapDport cfg.encap)
      rw [PortFits, ← getD_sameMode_iff]
      constructor
      · rintro ⟨fou, g, hlookup, hmode, -, -⟩
        obtain rfl := Option.some.inj (hfou.symm.trans hlookup)
        exact hmode
      · intro hmode
        refine ⟨_, _, hfou, hmode, hmade.lookup, ?_⟩
        rw [hmode.2]
        exact gretunFor_encapType hne

def gueKernel : Kernel :=
  { Kernel.empty with
    fous := (∅ : AList fun _ : ℕ × Port => Fou).insert (afInet, 7777)
      (fouFor 7777 .gue) }

/-- A port that is closed is opened in the mode of the tunnel. -/
theorem create_portMatches_closed :
    PortMatches sampleConfig (exec (create none sampleConfig) calm Kernel.empty).2 :=
  (create_portMatches_iff none sampleConfig Kernel.empty calm (.inl rfl)
    (fun _ c => by cases c <;> simp [ExactFouAdd, calm]) (by decide +kernel)).mpr
    fun fou hfou => (by cases hfou)

/-- `Create` reports success for a tunnel in FOU mode, and its receive port is one in
GUE mode. -/
theorem create_port_of_gueKernel :
    (exec (create none sampleConfig) calm gueKernel).1 = .ok () ∧
      (exec (create none sampleConfig) calm gueKernel).2.fous.lookup (afInet, 7777) =
        some (fouFor 7777 .gue) ∧
      ¬ PortMatches sampleConfig (exec (create none sampleConfig) calm gueKernel).2 := by
  have hfou : (exec (create none sampleConfig) calm gueKernel).2.fous.lookup
      (afInet, 7777) = some (fouFor 7777 .gue) := by
    decide +kernel
  refine ⟨by decide +kernel, hfou, ?_⟩
  rintro ⟨fou, g, hlookup, hmode, -⟩
  obtain rfl := Option.some.inj (hfou.symm.trans hlookup)
  exact absurd hmode (by decide)

end Tunnel

end Gretun
