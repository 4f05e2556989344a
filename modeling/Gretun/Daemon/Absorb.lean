import Gretun.Daemon.Peer
import Gretun.Foundation.Union

/-!
# Absorbing endpoints

`absorbEndpoints` walks over the texts of a message with the set of the addresses it
has met, first those of the list it extends. `absorbSeen` is that loop. Its list is
the one `absorbEndpoints` gives, which makes it a union that keeps the order.
-/

namespace Gretun

namespace Daemon

open Gretun.Net
open Gretun.Disco
open Foundation.Union

def calledEndpoint (ap : AddrPort) : RemoteEndpoint := ⟨ap, "call_me_maybe"⟩

/-- One turn of the loop: a text that does not parse, or whose address is in `seen`,
is passed over. -/
def absorbOne (e : Env) (s : Finset AddrPort × List RemoteEndpoint) (text : String) :
    Finset AddrPort × List RemoteEndpoint :=
  match e.parseAddrPort text with
  | none => s
  | some ap => if ap ∈ s.1 then s else (insert ap s.1, s.2 ++ [calledEndpoint ap])

def absorbSeen (e : Env) (addrs : List String) (eps : List RemoteEndpoint) :
    List RemoteEndpoint :=
  (addrs.foldl (absorbOne e) ((eps.map (·.addr)).toFinset, eps)).2

theorem absorbEndpoints_endpoints (e : Env) (addrs : List String) (w : World) :
    (absorbEndpoints e addrs w).fsm.peer.endpoints =
      (addrs.filterMap e.parseAddrPort).foldl (appendNew (·.addr) calledEndpoint)
        w.fsm.peer.endpoints := by
  rw [List.foldl_filterMap]
  refine congrArg (fun add => addrs.foldl add w.fsm.peer.endpoints) ?_
  funext eps s
  cases e.parseAddrPort s <;> rfl

/-- The loop with the set is the fold over the addresses that parse. -/
theorem absorbSeen_eq (e : Env) (addrs : List String) (eps : List RemoteEndpoint) :
    absorbSeen e addrs eps =
      (addrs.filterMap e.parseAddrPort).foldl (appendNew (·.addr) calledEndpoint)
        eps := by
  rw [← foldl_appendUnseen (fun _ => rfl) (fun _ => List.mem_toFinset),
    List.foldl_filterMap, absorbSeen]
  congr 2
  funext s text
  unfold absorbOne
  cases e.parseAddrPort text <;> rfl

theorem absorbEndpoints_append (e : Env) (l₁ l₂ : List String) (w : World) :
    absorbEndpoints e (l₁ ++ l₂) w =
      absorbEndpoints e l₂ (absorbEndpoints e l₁ w) := by
  simp only [absorbEndpoints, List.foldl_append]

theorem absorbEndpoints_of_endpoints {e : Env} {addrs : List String} {w : World}
    (h : (absorbEndpoints e addrs w).fsm.peer.endpoints = w.fsm.peer.endpoints) :
    absorbEndpoints e addrs w = w :=
  congrArg (fun eps => { w with fsm := { w.fsm with
    peer := { w.fsm.peer with endpoints := eps } } }) h

theorem absorbEndpoints_idem (e : Env) (addrs : List String) (w : World) :
    absorbEndpoints e addrs (absorbEndpoints e addrs w) =
      absorbEndpoints e addrs w := by
  refine absorbEndpoints_of_endpoints ?_
  rw [absorbEndpoints_endpoints, absorbEndpoints_endpoints,
    foldl_appendNew_idem fun _ => rfl]

/-- Absorbing texts is a union of the addresses that keeps the order. The list of the
loop is the old list followed by the first occurrence of each new address. So the old
entries stay where they are, no other address is there twice, the same texts add
nothing the second time, and two lists of texts can be absorbed as one. -/
theorem absorbEndpoints_union (e : Env) (w : World) :
    (∀ addrs, (absorbEndpoints e addrs w).fsm.peer.endpoints =
        absorbSeen e addrs w.fsm.peer.endpoints) ∧
      (∀ addrs, absorbSeen e addrs w.fsm.peer.endpoints = w.fsm.peer.endpoints ++
        ((addrs.filterMap e.parseAddrPort).filter
          (· ∉ w.fsm.peer.endpoints.map (·.addr))).eraseDups.map calledEndpoint) ∧
      (∀ addrs, w.fsm.peer.endpoints <+:
        (absorbEndpoints e addrs w).fsm.peer.endpoints) ∧
      (∀ addrs, ∀ ap ∉ w.fsm.peer.endpoints.map (·.addr),
        ((absorbEndpoints e addrs w).fsm.peer.endpoints.map (·.addr)).count ap ≤ 1) ∧
      (∀ addrs, absorbEndpoints e addrs (absorbEndpoints e addrs w) =
        absorbEndpoints e addrs w) ∧
      (∀ l₁ l₂, absorbEndpoints e l₂ (absorbEndpoints e l₁ w) =
        absorbEndpoints e (l₁ ++ l₂) w) := by
  have hunion (addrs : List String) : absorbSeen e addrs w.fsm.peer.endpoints =
      w.fsm.peer.endpoints ++ ((addrs.filterMap e.parseAddrPort).filter
        (· ∉ w.fsm.peer.endpoints.map (·.addr))).eraseDups.map calledEndpoint := by
    rw [absorbSeen_eq, foldl_appendNew fun _ => rfl]
  have hsame (addrs : List String) : (absorbEndpoints e addrs w).fsm.peer.endpoints =
      absorbSeen e addrs w.fsm.peer.endpoints := by
    rw [absorbEndpoints_endpoints, absorbSeen_eq]
  refine ⟨hsame, hunion, fun addrs => ?_, fun addrs ap hap => ?_,
    fun addrs => absorbEndpoints_idem e addrs w,
    fun l₁ l₂ => (absorbEndpoints_append e l₁ l₂ w).symm⟩
  · rw [hsame, hunion]
    exact List.prefix_append _ _
  · have haddr : RemoteEndpoint.addr ∘ calledEndpoint = id := rfl
    rw [hsame, hunion, List.map_append, List.count_append, List.count_eq_zero.mpr hap,
      Nat.zero_add, List.map_map, haddr, List.map_id]
    exact List.nodup_iff_count_le_one.mp (nodup_eraseDups _) ap

end Daemon

end Gretun
