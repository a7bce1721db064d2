import Syndicate.Egress.Lock

/-! # What unlocking undoes

    A lock inserts a rule only where it is absent, an unlock deletes the
    first copy of a rule whoever put it there, and the rule for established
    connections belongs to every network. -/

namespace Syndicate.Egress

open Framework

variable {ν α Addr : Type}

section laws
variable [DecidableEq ν] [DecidableEq α] {chain : List (Rule ν α)} {subnet : ν}

/-! ## Locking and unlocking again -/

/-- After a lock every rule of it is there. -/
theorem lock_rules_subset (subnet : ν) (chain : List (Rule ν α)) :
    ∀ r ∈ lock_rules subnet, r ∈ lock subnet chain := by
  intro r hr
  rw [lock_eq, List.mem_append]
  by_cases h : r ∈ chain
  · exact Or.inr h
  · exact Or.inl (mem_fresh.mpr ⟨hr, h⟩)

/-- **A second lock changes nothing.** -/
theorem lock_lock (subnet : ν) (chain : List (Rule ν α)) :
    lock subnet (lock subnet chain) = lock subnet chain := by
  have hnone : fresh subnet (lock subnet chain) = [] := by
    rw [fresh, List.filter_eq_nil_iff]
    intro r hr
    simpa using lock_rules_subset subnet chain r hr
  rw [lock_eq subnet (lock subnet chain), hnone, List.nil_append]

/-- An unlock takes one rule away for each of its three that is there. -/
theorem length_unlock (h : ∀ r ∈ lock_rules subnet, r ∈ chain) :
    (unlock subnet chain).length + 3 = chain.length := by
  have hegress := h (.egress subnet) (by simp [lock_rules])
  have hintra := h (.intra subnet) (by simp [lock_rules])
  have hest := h .established (by simp [lock_rules])
  have hintra' : Rule.intra subnet ∈ chain.erase (.egress subnet) :=
    (List.mem_erase_of_ne (by simp)).mpr hintra
  have hest' : Rule.established ∈ (chain.erase (.egress subnet)).erase (.intra subnet) :=
    (List.mem_erase_of_ne (by simp)).mpr ((List.mem_erase_of_ne (by simp)).mpr hest)
  have h₁ := List.length_erase_add_one hegress
  have h₂ := List.length_erase_add_one hintra'
  have h₃ := List.length_erase_add_one hest'
  rw [unlock_eq]
  omega

/-- **Unlocking restores the chain** exactly if it had none of the rules. -/
theorem unlock_lock_iff (subnet : ν) (chain : List (Rule ν α)) :
    unlock subnet (lock subnet chain) = chain ↔ ∀ r ∈ lock_rules subnet, r ∉ chain := by
  constructor
  · intro heq
    have hlen := length_unlock (lock_rules_subset subnet chain)
    rw [heq, lock_eq, List.length_append] at hlen
    -- three rules went, so three were inserted
    have hall : fresh subnet chain = lock_rules subnet := by
      apply List.filter_sublist.eq_of_length
      show (fresh subnet chain).length = 3
      omega
    intro r hr
    rw [← hall] at hr
    exact (mem_fresh.mp hr).2
  · intro habsent
    have hfresh : fresh subnet chain = lock_rules subnet := by
      rw [fresh, List.filter_eq_self]
      intro r hr
      simpa using habsent r hr
    rw [unlock_eq, lock_eq, hfresh]
    simp [lock_rules]

/-! ## Unlocking twice -/

/-- An unlock takes one copy of each of the three rules. -/
theorem count_unlock {subnet : ν} {r : Rule ν α} (hr : r ∈ lock_rules subnet)
    (chain : List (Rule ν α)) : (unlock subnet chain).count r = chain.count r - 1 := by
  simp only [lock_rules, List.mem_cons, List.not_mem_nil, or_false] at hr
  rw [unlock_eq]
  rcases hr with rfl | rfl | rfl <;> simp

/-- **A second unlock changes nothing** exactly if no rule was there twice. -/
theorem unlock_unlock_iff (subnet : ν) (chain : List (Rule ν α)) :
    unlock subnet (unlock subnet chain) = unlock subnet chain ↔
      ∀ r ∈ lock_rules subnet, chain.count r ≤ 1 := by
  constructor
  · intro heq r hr
    by_contra hmany
    have hone := count_unlock hr chain
    -- a copy that is left would be deleted by the second run
    have htwo := count_unlock hr (unlock subnet chain)
    rw [heq] at htwo
    omega
  · intro hle
    have habsent : ∀ r ∈ lock_rules subnet, r ∉ unlock subnet chain := by
      intro r hr hmem
      have hpos := List.count_pos_iff.mpr hmem
      have hone := count_unlock hr chain
      have := hle r hr
      omega
    rw [unlock_eq subnet (unlock subnet chain),
      List.erase_of_not_mem (habsent (.egress subnet) (by simp [lock_rules])),
      List.erase_of_not_mem (habsent (.intra subnet) (by simp [lock_rules])),
      List.erase_of_not_mem (habsent .established (by simp [lock_rules]))]

end laws

/-! ## Other networks -/

section others
variable (host : Host ν α Addr)

/-- The shared rule does not matter to the packet: it is new, a rule above
    the first copy decides, or what stands below returns it too. -/
def Host.Spared (chain : List (Rule ν α)) (p : Packet Addr) : Prop :=
  p.established = true → ∀ above beneath, chain = above ++ .established :: beneath →
    .established ∉ above →
    (∃ r ∈ above, host.hit r p = true) ∨ host.verdict beneath p = .RETURN

variable {host} {p : Packet Addr}

theorem verdict_append {chain chain' : List (Rule ν α)} :
    host.verdict (chain ++ chain') p =
      match host.decider chain p with
      | some r => host.jump r
      | none => host.verdict chain' p := by
  rw [Host.verdict, Host.decider, decider_append]
  show _ = match Framework.decider host.hit chain p with | some r => _ | none => _
  cases Framework.decider host.hit chain p <;> rfl

/-- Without the first copy of the shared rule. -/
theorem verdict_erase_established [DecidableEq ν] [DecidableEq α] (chain : List (Rule ν α)) :
    host.verdict (chain.erase .established) p = host.verdict chain p ↔ host.Spared chain p := by
  by_cases hmem : Rule.established ∈ chain
  · obtain ⟨above, beneath, habove, hsplit, herase⟩ := List.exists_erase_eq hmem
    rw [herase, hsplit, verdict_append, verdict_append]
    -- the split at the first copy is the only one
    have hspared : host.Spared (above ++ .established :: beneath) p ↔ (p.established = true →
        (∃ r ∈ above, host.hit r p = true) ∨ host.verdict beneath p = .RETURN) := by
      constructor
      · intro h hest
        exact h hest above beneath rfl habove
      · intro h hest above' beneath' heq habove'
        have hfirst : above' = above ∧ beneath' = beneath := by
          have hidx : ∀ l : List (Rule ν α), Rule.established ∉ l → ∀ l',
              (l ++ Rule.established :: l').idxOf Rule.established = l.length := by
            intro l hl l'
            rw [List.idxOf_append_of_notMem hl, List.idxOf_cons_self, Nat.add_zero]
          have hlen : above'.length = above.length := by
            rw [← hidx above' habove' beneath', ← hidx above habove beneath, heq]
          obtain ⟨h₁, h₂⟩ := List.append_inj heq.symm hlen
          exact ⟨h₁, (List.cons.inj h₂).2⟩
        rw [hfirst.1, hfirst.2]
        exact h hest
    rw [hspared]
    cases hdec : host.decider above p with
    | some r =>
      obtain ⟨hr, hhit⟩ := decider_some hdec
      exact iff_of_true rfl fun _ => Or.inl ⟨r, hr, hhit⟩
    | none =>
      have hnone := decider_eq_none.mp hdec
      have hno : ¬∃ r ∈ above, host.hit r p = true := by
        intro hsome
        obtain ⟨r, hr, hhit⟩ := hsome
        rw [hnone r hr] at hhit
        cases hhit
      show host.verdict beneath p = host.verdict (.established :: beneath) p ↔ _
      have hcons : host.verdict (.established :: beneath) p =
          if p.established then .RETURN else host.verdict beneath p := by
        rw [Host.verdict, Host.decider, decider_cons]
        show ((if p.established = true then _ else _ : Option (Rule ν α)).map host.jump).getD _ = _
        cases p.established <;> rfl
      rw [hcons]
      by_cases hest : p.established = true
      · rw [if_pos hest]
        constructor
        · intro heq _
          exact Or.inr heq
        · intro h
          exact (h hest).resolve_left hno
      · rw [if_neg hest]
        exact iff_of_true rfl fun h => absurd h hest
  · rw [List.erase_of_not_mem hmem]
    refine iff_of_true rfl ?_
    intro _ above beneath heq _
    exact absurd (by rw [heq]; simp) hmem

/-- **What an unlock changes for the packets of other networks** is what the
    shared rule decided alone. -/
theorem unlock_verdict_iff [DecidableEq ν] [DecidableEq α] {chain : List (Rule ν α)} {subnet : ν}
    (hp : host.contains subnet p.src = false) :
    host.verdict (unlock subnet chain) p = host.verdict chain p ↔ host.Spared chain p := by
  have hegress : host.hit (.egress subnet : Rule ν α) p = false := by simp [Host.hit, hp]
  have hintra : host.hit (.intra subnet : Rule ν α) p = false := by simp [Host.hit, hp]
  rw [← verdict_erase_established]
  -- the two rules of the subnet match no such packet
  have hrest : host.verdict (unlock subnet chain) p = host.verdict (chain.erase .established) p := by
    rw [unlock_eq, List.erase_comm (Rule.intra subnet) Rule.established,
      List.erase_comm (Rule.egress subnet) Rule.established, Host.verdict, Host.verdict, Host.decider,
      Host.decider, decider_erase hintra, decider_erase hegress]
  rw [hrest]

/-- **What an unlock undoes**: it restores a chain that had none of the
    rules, a second lock never changes anything, a second unlock only where a
    rule was there twice, and a packet of another network keeps its verdict
    exactly if the shared rule did not matter to it. -/
theorem unlock_laws [DecidableEq ν] [DecidableEq α] (host : Host ν α Addr)
    (chain : List (Rule ν α)) (subnet : ν) :
    (unlock subnet (lock subnet chain) = chain ↔ ∀ r ∈ lock_rules subnet, r ∉ chain) ∧
    lock subnet (lock subnet chain) = lock subnet chain ∧
    (unlock subnet (unlock subnet chain) = unlock subnet chain ↔
      ∀ r ∈ lock_rules subnet, chain.count r ≤ 1) ∧
    ∀ p : Packet Addr, host.contains subnet p.src = false →
      (host.verdict (unlock subnet chain) p = host.verdict chain p ↔ host.Spared chain p) :=
  ⟨unlock_lock_iff subnet chain, lock_lock subnet chain, unlock_unlock_iff subnet chain,
    fun _ hp => unlock_verdict_iff hp⟩

end others

section small

/-- What is expected of the scripts on a chain. -/
structure Undoes (host : Host ν α Addr) [DecidableEq ν] [DecidableEq α] (chain : List (Rule ν α))
    (subnet : ν) : Prop where
  restores : unlock subnet (lock subnet chain) = chain
  lock_again : lock subnet (lock subnet chain) = lock subnet chain
  unlock_again : unlock subnet (unlock subnet chain) = unlock subnet chain
  others : ∀ other, other ≠ subnet → (∀ r ∈ lock_rules other, r ∈ chain) →
    ∀ p, host.contains other p.src = true →
      host.verdict (unlock subnet chain) p = host.verdict chain p

/-- Two networks are locked and the second is unlocked: the first loses its
    established connections. -/
theorem unlock_takes_the_shared_rule :
    ¬∀ (chain : List (Rule Bool Empty)) (subnet : Bool), Undoes small_host chain subnet := by
  intro hall
  have hothers := (hall (lock true (lock false [])) true).others false (by decide) (by decide)
  exact absurd (hothers ⟨some false, none, true⟩ (by decide)) (by decide)

end small

end Syndicate.Egress
