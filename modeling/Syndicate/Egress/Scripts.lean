import Syndicate.Framework.Chain
import Syndicate.Framework.Runs

/-! # The egress scripts

    `lock_egress.sh` and `unlock_egress.sh` edit the `DOCKER-USER` chain of
    the host.  A rule of the lock is one of three forms; every other rule is
    an administrator's, with matches and target of its own.  Subnets and
    addresses are whatever `iptables` compares. -/

namespace Syndicate.Egress

open Framework

variable {ν α Addr : Type}

/-! ## `iptables` -/

/-- What a rule or the end of the chain says of a packet. -/
inductive Target where
  | RETURN
  | DROP
  | ACCEPT
  | REJECT
deriving DecidableEq, Repr

/-- A rule of `DOCKER-USER`. -/
inductive Rule (ν α : Type) where
  /-- `-m conntrack --ctstate ESTABLISHED,RELATED -j RETURN`. -/
  | established
  /-- `-s subnet -d subnet -j RETURN`. -/
  | intra (subnet : ν)
  /-- `-s subnet ! -d subnet -j DROP`. -/
  | egress (subnet : ν)
  | admin (rule : α)
deriving DecidableEq

/-- A forwarded packet, and whether conntrack has its connection as
    established or related. -/
structure Packet (Addr : Type) where
  src : Addr
  dst : Addr
  established : Bool

/-- What the addresses and the administrator's rules mean. -/
structure Host (ν α Addr : Type) where
  contains : ν → Addr → Bool
  hits : α → Packet Addr → Bool
  target : α → Target

namespace Host

variable (host : Host ν α Addr)

/-- The packet matches the rule. -/
def hit : Rule ν α → Packet Addr → Bool
  | .established, p => p.established
  | .intra subnet, p => host.contains subnet p.src && host.contains subnet p.dst
  | .egress subnet, p => host.contains subnet p.src && !host.contains subnet p.dst
  | .admin rule, p => host.hits rule p

/-- `-j`. -/
def jump : Rule ν α → Target
  | .established => .RETURN
  | .intra _ => .RETURN
  | .egress _ => .DROP
  | .admin rule => host.target rule

/-- The rule that decides about a packet. -/
def decider (chain : List (Rule ν α)) (p : Packet Addr) : Option (Rule ν α) :=
  Framework.decider host.hit chain p

/-- The verdict of the chain: at its end a packet returns. -/
def verdict (chain : List (Rule ν α)) (p : Packet Addr) : Target :=
  ((host.decider chain p).map host.jump).getD .RETURN

end Host

/-! ## The scripts -/

/-- The rules of the lock on a subnet, in the order they are meant to stand. -/
def lock_rules (subnet : ν) : List (Rule ν α) := [.established, .intra subnet, .egress subnet]

/-- `lock_egress.sh`: each call inserts at position 1, the last rule first.
    Without a subnet the script exits before its first command. -/
def lock_egress : Option ν → List (Edit (Rule ν α))
  | none => []
  | some subnet =>
    [.insert_if_absent 1 (.egress subnet), .insert_if_absent 1 (.intra subnet),
      .insert_if_absent 1 .established]

/-- `unlock_egress.sh`: without a subnet only the shared rule goes. -/
def unlock_egress : Option ν → List (Edit (Rule ν α))
  | none => [.delete_if_present .established]
  | some subnet =>
    [.delete_if_present (.egress subnet), .delete_if_present (.intra subnet),
      .delete_if_present .established]

inductive Script where
  | lock_egress
  | unlock_egress
deriving DecidableEq

/-- One run of a script: the subnet that `docker network inspect` finds, and
    after how many `iptables` commands the run is interrupted, if it is. -/
structure Run (ν : Type) where
  script : Script
  subnet : Option ν
  stop : Option Nat

def Run.edits (r : Run ν) : List (Edit (Rule ν α)) :=
  match r.script with
  | .lock_egress => Egress.lock_egress r.subnet
  | .unlock_egress => Egress.unlock_egress r.subnet

section scripts
variable [DecidableEq ν] [DecidableEq α]

/-- What a run makes of the chain. -/
def Run.exec (chain : List (Rule ν α)) (r : Run ν) : List (Rule ν α) :=
  match r.stop with
  | none => complete r.edits chain
  | some budget => interrupted r.edits budget chain

/-- A completed `lock_egress.sh`. -/
def lock (subnet : ν) (chain : List (Rule ν α)) : List (Rule ν α) :=
  Run.exec chain ⟨.lock_egress, some subnet, none⟩

/-- A completed `unlock_egress.sh`. -/
def unlock (subnet : ν) (chain : List (Rule ν α)) : List (Rule ν α) :=
  Run.exec chain ⟨.unlock_egress, some subnet, none⟩

/-! ## What a completed run does -/

/-- The rules of the lock that a run on this chain inserts. -/
def fresh (subnet : ν) (chain : List (Rule ν α)) : List (Rule ν α) :=
  (lock_rules subnet).filter fun r => decide (r ∉ chain)

/-- **What a lock does**: the absent rules go on top, in their order. -/
theorem lock_eq (subnet : ν) (chain : List (Rule ν α)) : lock subnet chain = fresh subnet chain ++ chain := by
  have hnodup : [Rule.egress subnet, .intra subnet, (.established : Rule ν α)].Nodup := by simp
  exact complete_insert _ hnodup chain

theorem unlock_eq (subnet : ν) (chain : List (Rule ν α)) :
    unlock subnet chain = ((chain.erase (.egress subnet)).erase (.intra subnet)).erase .established := by
  show complete _ chain = _
  simp only [Run.edits, unlock_egress, complete, List.foldl_cons, List.foldl_nil, apply_delete]

theorem mem_fresh {subnet : ν} {chain : List (Rule ν α)} {r : Rule ν α} :
    r ∈ fresh subnet chain ↔ r ∈ lock_rules subnet ∧ r ∉ chain := by
  simp [fresh]

/-! ## Chains the scripts can reach -/

/-- A rule of some lock. -/
def Rule.isLock : Rule ν α → Bool
  | .admin _ => false
  | _ => true

/-- A chain with none of the lock's rules. -/
def Clean (chain : List (Rule ν α)) : Prop := ∀ r ∈ chain, r.isLock = false

/-- The lock's rules, each at most once, on top of the administrator's. -/
structure Layered (below chain : List (Rule ν α)) (locks : List (Rule ν α)) : Prop where
  split : chain = locks ++ below
  nodup : locks.Nodup
  locks : ∀ r ∈ locks, r.isLock = true

omit [DecidableEq ν] [DecidableEq α] in
/-- A rule of the lock stands in the upper layer. -/
theorem Layered.mem_locks {below chain locks : List (Rule ν α)} (h : Layered below chain locks)
    (hclean : Clean below) {r : Rule ν α} (hlock : r.isLock = true) : r ∈ chain ↔ r ∈ locks := by
  rw [h.split, List.mem_append]
  constructor
  · rintro (hr | hr)
    · exact hr
    · rw [hclean r hr] at hlock
      cases hlock
  · exact Or.inl

omit [DecidableEq ν] [DecidableEq α] in
/-- What the scripts name are rules of the lock, at position 1. -/
theorem mem_edits {r : Run ν} {e : Edit (Rule ν α)} (h : e ∈ r.edits) :
    ∃ x : Rule ν α, x.isLock = true ∧ (e = .insert_if_absent 1 x ∨ e = .delete_if_present x) := by
  obtain ⟨script, subnet, stop⟩ := r
  cases script
  · cases subnet with
    | none => cases h
    | some subnet =>
      simp only [Run.edits, lock_egress, List.mem_cons, List.not_mem_nil, or_false] at h
      rcases h with rfl | rfl | rfl <;> exact ⟨_, rfl, Or.inl rfl⟩
  · cases subnet with
    | none =>
      simp only [Run.edits, unlock_egress, List.mem_cons, List.not_mem_nil, or_false] at h
      subst h
      exact ⟨_, rfl, Or.inr rfl⟩
    | some subnet =>
      simp only [Run.edits, unlock_egress, List.mem_cons, List.not_mem_nil, or_false] at h
      rcases h with rfl | rfl | rfl <;> exact ⟨_, rfl, Or.inr rfl⟩

/-- One step of a script keeps the layers. -/
theorem layered_change {below chain : List (Rule ν α)} (hclean : Clean below) {r : Run ν}
    {e : Edit (Rule ν α)} (he : e ∈ r.edits) (h : ∃ locks, Layered below chain locks)
    (hdue : e.due chain = true) : ∃ locks, Layered below (e.change chain) locks := by
  obtain ⟨locks, hlayered⟩ := h
  obtain ⟨x, hx, rfl | rfl⟩ := mem_edits he
  · -- an absent rule goes on top
    have habsent : x ∉ chain := by simpa [Edit.due] using hdue
    rw [hlayered.mem_locks hclean hx] at habsent
    refine ⟨x :: locks, ?_, ?_, ?_⟩
    · show x :: chain = _
      rw [hlayered.split]
      rfl
    · exact List.nodup_cons.mpr ⟨habsent, hlayered.nodup⟩
    · exact List.forall_mem_cons.mpr ⟨hx, hlayered.locks⟩
  · -- a rule of the lock goes, from the upper layer
    have hmem : x ∈ chain := by simpa [Edit.due] using hdue
    rw [hlayered.mem_locks hclean hx] at hmem
    refine ⟨locks.erase x, ?_, hlayered.nodup.erase x, ?_⟩
    · show chain.erase x = _
      rw [hlayered.split, List.erase_append_left _ hmem]
    · exact fun y hy => hlayered.locks y (List.mem_of_mem_erase hy)

/-- **Any history keeps the layers**, wherever its runs are interrupted. -/
theorem layered_play {below : List (Rule ν α)} (hclean : Clean below) (history : List (Run ν)) :
    ∃ locks, Layered below (play Run.exec below history) locks := by
  apply play_keeps (P := fun chain => ∃ locks, Layered below chain locks)
  · exact ⟨[], rfl, List.nodup_nil, by simp⟩
  · intro chain r h
    have hstep : ∀ e ∈ (r.edits : List (Edit (Rule ν α))), ∀ chain,
        (∃ locks, Layered below chain locks) → e.due chain = true →
          ∃ locks, Layered below (e.change chain) locks :=
      fun e he chain h hdue => layered_change hclean he h hdue
    unfold Run.exec
    split
    · rw [← interrupted_complete _ (Nat.le_refl _)]
      exact interrupted_invariant (P := fun chain => ∃ locks, Layered below chain locks) hstep _ h
    · exact interrupted_invariant (P := fun chain => ∃ locks, Layered below chain locks) hstep _ h

end scripts

end Syndicate.Egress
