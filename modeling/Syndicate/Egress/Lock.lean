import Syndicate.Egress.Scripts

/-! # When the egress lock is effective

    A lock puts its absent rules on top, so it decides about the packets that
    those rules match, and leaves the others to the chain it found.  It goes
    wrong when the shared rule for established connections is there already
    and the drop rule comes to stand above it. -/

namespace Syndicate.Egress

open Framework

variable {ν α Addr : Type}

/-! ## What the lock is for -/

section spec
variable (host : Host ν α Addr)

/-- One of the lock's drop rules decides about the packet. -/
def Host.Dropped (chain : List (Rule ν α)) (p : Packet Addr) : Prop :=
  ∃ subnet, host.decider chain p = some (.egress subnet)

/-- The chain treats a packet from the subnet as the lock is meant to. -/
structure Host.Treats (chain : List (Rule ν α)) (subnet : ν) (p : Packet Addr) : Prop where
  established : p.established = true → ¬host.Dropped chain p
  intra : host.contains subnet p.dst = true → host.verdict chain p ≠ .DROP
  egress : p.established = false → host.contains subnet p.dst = false →
    host.verdict chain p = .DROP

/-- The chain is a lock on the subnet. -/
def Host.Effective (chain : List (Rule ν α)) (subnet : ν) : Prop :=
  ∀ p, host.contains subnet p.src = true → host.Treats chain subnet p

/-- There are addresses in the subnet and outside. -/
def Host.Proper (subnet : ν) : Prop :=
  (∃ a, host.contains subnet a = true) ∧ ∃ b, host.contains subnet b = false

/-- Every other subnet with a rule in the chain is disjoint from this one. -/
def Host.Apart (chain : List (Rule ν α)) (subnet : ν) : Prop :=
  ∀ other, other ≠ subnet → .intra other ∈ chain ∨ .egress other ∈ chain →
    ∀ a, host.contains subnet a = true → host.contains other a = false

end spec

/-! ## The lock on any chain -/

section lock
variable [DecidableEq ν] [DecidableEq α] (host : Host ν α Addr) {chain : List (Rule ν α)}
  {subnet : ν} {p : Packet Addr}

/-- The chain before a lock leaves the lock nothing to spoil: the drop rule
    does not get above the shared rule, and the packets that no inserted rule
    matches are treated right already. -/
structure Host.Ready (chain : List (Rule ν α)) (subnet : ν) : Prop where
  order : .established ∈ chain → .egress subnet ∈ chain
  rest : ∀ p, host.contains subnet p.src = true →
    (∀ r ∈ fresh subnet chain, host.hit r p = false) → host.Treats chain subnet p

variable {host}

/-- Where an inserted rule matches, it decides. -/
theorem decider_lock_fresh {r : Rule ν α}
    (h : Framework.decider host.hit (fresh subnet chain) p = some r) :
    host.decider (lock subnet chain) p = some r := by
  rw [Host.decider, lock_eq, decider_append, h]
  rfl

/-- Where none matches, the chain decides as before. -/
theorem decider_lock_rest (h : ∀ r ∈ fresh subnet chain, host.hit r p = false) :
    host.decider (lock subnet chain) p = host.decider chain p := by
  rw [Host.decider, lock_eq, decider_append, decider_eq_none.mpr h]
  rfl

omit [DecidableEq ν] [DecidableEq α] in
/-- How a packet is treated depends on the deciding rule only. -/
theorem treats_congr {chain' : List (Rule ν α)} (h : host.decider chain p = host.decider chain' p) :
    host.Treats chain subnet p ↔ host.Treats chain' subnet p := by
  have hverdict : host.verdict chain p = host.verdict chain' p := by
    rw [Host.verdict, Host.verdict, h]
  constructor
  · intro ht
    refine ⟨?_, ?_, ?_⟩
    · intro hest hsome
      obtain ⟨n, hn⟩ := hsome
      exact ht.established hest ⟨n, h.trans hn⟩
    · rw [← hverdict]
      exact ht.intra
    · rw [← hverdict]
      exact ht.egress
  · intro ht
    refine ⟨?_, ?_, ?_⟩
    · intro hest hsome
      obtain ⟨n, hn⟩ := hsome
      exact ht.established hest ⟨n, h.symm.trans hn⟩
    · rw [hverdict]
      exact ht.intra
    · rw [hverdict]
      exact ht.egress

omit [DecidableEq ν] [DecidableEq α] in
/-- A packet that a returning rule decides about. -/
theorem treats_return {r : Rule ν α} (h : host.decider chain p = some r)
    (hjump : host.jump r = .RETURN) (hnew : p.established = true ∨ host.contains subnet p.dst = true) :
    host.Treats chain subnet p := by
  have hverdict : host.verdict chain p = .RETURN := by
    rw [Host.verdict, h]
    exact hjump
  refine ⟨?_, ?_, ?_⟩
  · intro _ hsome
    obtain ⟨n, hn⟩ := hsome
    rw [h] at hn
    obtain rfl := Option.some.inj hn
    cases hjump
  · intro _
    rw [hverdict]
    decide
  · intro hest hdst
    rcases hnew with hnew | hnew
    · rw [hest] at hnew
      cases hnew
    · rw [hdst] at hnew
      cases hnew

omit [DecidableEq ν] [DecidableEq α] in
/-- A new packet to outside that the drop rule decides about. -/
theorem treats_drop {n : ν} (h : host.decider chain p = some (.egress n))
    (hest : p.established = false) (hdst : host.contains subnet p.dst = false) :
    host.Treats chain subnet p := by
  refine ⟨?_, ?_, ?_⟩
  · intro hest'
    rw [hest] at hest'
    cases hest'
  · intro hdst'
    rw [hdst] at hdst'
    cases hdst'
  · intro _ _
    rw [Host.verdict, h]
    rfl

/-- **A lock decides by what it inserts**: it is effective exactly if the
    chain was ready for it. -/
theorem effective_iff_ready (hproper : host.Proper subnet) :
    host.Effective (lock subnet chain) subnet ↔ host.Ready chain subnet := by
  constructor
  · intro heff
    refine ⟨?_, ?_⟩
    · -- an established packet to outside: a new drop rule would take it
      intro hest
      by_contra hegress
      obtain ⟨⟨a, ha⟩, b, hb⟩ := hproper
      have hdec : Framework.decider host.hit (fresh subnet chain) ⟨a, b, true⟩ =
          some (.egress subnet) := by
        have hintra : host.hit (.intra subnet : Rule ν α) ⟨a, b, true⟩ = false := by
          simp [Host.hit, hb]
        have hhit : host.hit (.egress subnet : Rule ν α) ⟨a, b, true⟩ = true := by
          simp [Host.hit, ha, hb]
        by_cases hi : Rule.intra subnet ∈ chain
        · simp [fresh, lock_rules, hest, hegress, hi, decider_cons, hhit]
        · simp [fresh, lock_rules, hest, hegress, hi, decider_cons, hhit, hintra]
      exact (heff ⟨a, b, true⟩ ha).established rfl ⟨subnet, decider_lock_fresh hdec⟩
    · intro p hp hfresh
      exact (treats_congr (decider_lock_rest hfresh)).mp (heff p hp)
  · intro hready p hp
    by_cases hfresh : ∀ r ∈ fresh subnet chain, host.hit r p = false
    · exact (treats_congr (decider_lock_rest hfresh)).mpr (hready.rest p hp hfresh)
    · -- the first inserted rule that matches decides
      obtain ⟨r, hr⟩ := Option.ne_none_iff_exists'.mp fun hnone => hfresh (decider_eq_none.mp hnone)
      have hdec := decider_lock_fresh hr
      obtain ⟨hmem, hhit⟩ := decider_some hr
      obtain ⟨hrule, habsent⟩ := mem_fresh.mp hmem
      simp only [lock_rules, List.mem_cons, List.not_mem_nil, or_false] at hrule
      rcases hrule with rfl | rfl | rfl
      · exact treats_return hdec rfl (Or.inl hhit)
      · have hdst : host.contains subnet p.dst = true := (Bool.and_eq_true_iff.mp hhit).2
        exact treats_return hdec rfl (Or.inr hdst)
      · have hdst : host.contains subnet p.dst = false := by
          simpa using (Bool.and_eq_true_iff.mp hhit).2
        have hest : p.established = false := by
          by_contra hest
          have hest : p.established = true := by simpa using hest
          -- the shared rule is absent too, and would have decided
          have hshared : .established ∉ chain := fun h => habsent (hready.order h)
          have hfirst : Framework.decider host.hit (fresh subnet chain) p = some .established := by
            have hh : host.hit (.established : Rule ν α) p = true := hest
            simp [fresh, lock_rules, hshared, decider_cons, hh]
          rw [hfirst] at hr
          cases hr
        exact treats_drop hdec hest hdst

end lock

/-! ## The lock on a chain the scripts have reached -/

section reached
variable [DecidableEq ν] [DecidableEq α] {host : Host ν α Addr}
  {below chain locks : List (Rule ν α)} {subnet : ν} {p : Packet Addr}

omit [DecidableEq ν] [DecidableEq α] in
/-- The rules that a packet from the subnet matches in the upper layer. -/
theorem hit_locks (h : Layered below chain locks) (hapart : host.Apart chain subnet)
    (hp : host.contains subnet p.src = true) {r : Rule ν α} (hr : r ∈ locks)
    (hhit : host.hit r p = true) : r ∈ lock_rules subnet := by
  have hlock := h.locks r hr
  have hmem : r ∈ chain := by
    rw [h.split]
    exact List.mem_append_left below hr
  cases r with
  | admin rule => cases hlock
  | established => simp [lock_rules]
  | intra n =>
    by_cases hn : n = subnet
    · simp [lock_rules, hn]
    · have hsrc := hapart n hn (Or.inl hmem) p.src hp
      simp [Host.hit, hsrc] at hhit
  | egress n =>
    by_cases hn : n = subnet
    · simp [lock_rules, hn]
    · have hsrc := hapart n hn (Or.inr hmem) p.src hp
      simp [Host.hit, hsrc] at hhit

omit [DecidableEq ν] [DecidableEq α] in
/-- Where a rule of the upper layer matches, a rule of this subnet's lock
    decides, and it stands above every other that matches. -/
theorem decider_locks (h : Layered below chain locks) (hapart : host.Apart chain subnet)
    (hp : host.contains subnet p.src = true) {r : Rule ν α} (hr : r ∈ locks)
    (hhit : host.hit r p = true) : ∃ x ∈ lock_rules subnet, host.hit x p = true ∧
      host.decider chain p = some x ∧
      ∀ y ∈ locks, host.hit y p = true → y = x ∨ [x, y].Sublist locks := by
  cases hdec : Framework.decider host.hit locks p with
  | none =>
    have := decider_eq_none.mp hdec r hr
    rw [hhit] at this
    cases this
  | some x =>
    obtain ⟨hx, pre, post, hsplit, hpre⟩ := List.find?_eq_some_iff_append.mp hdec
    have hmem : x ∈ locks := by
      rw [hsplit]
      simp
    refine ⟨x, hit_locks h hapart hp hmem hx, hx, ?_, ?_⟩
    · rw [Host.decider, h.split, decider_append, hdec]
      rfl
    · intro y hy hhit
      rw [hsplit] at hy
      rcases List.mem_append.mp hy with hy | hy
      · -- none above the deciding rule matches
        have := hpre y hy
        rw [hhit] at this
        cases this
      · rcases List.mem_cons.mp hy with rfl | hy
        · exact Or.inl rfl
        · right
          rw [hsplit]
          exact ((List.singleton_sublist.mpr hy).cons_cons x).trans (List.sublist_append_right pre _)

omit [DecidableEq ν] [DecidableEq α] in
/-- Which of two rules of the lock stands above is settled in the upper
    layer. -/
theorem Layered.sublist_iff (h : Layered below chain locks) (hclean : Clean below)
    {x y : Rule ν α} (hx : x.isLock = true) (hy : y.isLock = true) :
    [x, y].Sublist chain ↔ [x, y].Sublist locks := by
  rw [h.split]
  constructor
  · intro hsub
    obtain ⟨l₁, l₂, heq, h₁, h₂⟩ := List.sublist_append_iff.mp hsub
    -- nothing of the two comes from below
    have hnil : l₂ = [] := by
      apply List.eq_nil_iff_forall_not_mem.mpr
      intro z hz
      have hz' := hclean z (h₂.subset hz)
      have hin : z ∈ [x, y] := by
        rw [heq]
        exact List.mem_append_right l₁ hz
      rcases List.mem_pair.mp hin with rfl | rfl
      · rw [hx] at hz'
        cases hz'
      · rw [hy] at hz'
        cases hz'
    rw [hnil, List.append_nil] at heq
    rwa [heq]
  · intro hsub
    exact hsub.trans (List.sublist_append_left locks below)

/-- A matching rule of the lock that the chain lacks would be inserted. -/
theorem present_of_unmatched (hfresh : ∀ r ∈ fresh subnet chain, host.hit r p = false)
    {r : Rule ν α} (hr : r ∈ lock_rules subnet) (hhit : host.hit r p = true) : r ∈ chain := by
  by_contra habsent
  have := hfresh r (mem_fresh.mpr ⟨hr, habsent⟩)
  rw [hhit] at this
  cases this

/-- **Where the subnets are disjoint**, a chain is ready for a lock exactly
    if the shared rule is absent, or stands above the subnet's drop rule. -/
theorem ready_iff (h : Layered below chain locks) (hclean : Clean below)
    (hproper : host.Proper subnet) (hapart : host.Apart chain subnet) :
    host.Ready chain subnet ↔
      (.established ∈ chain → [.established, .egress subnet].Sublist chain) := by
  have hchain : ∀ {r : Rule ν α}, r.isLock = true → (r ∈ chain ↔ r ∈ locks) :=
    fun hr => h.mem_locks hclean hr
  have hsub : ∀ {x y : Rule ν α}, x.isLock = true → y.isLock = true →
      ([x, y].Sublist chain ↔ [x, y].Sublist locks) := fun hx hy => h.sublist_iff hclean hx hy
  constructor
  · intro hready hest
    have hegress := hready.order hest
    obtain ⟨⟨a, ha⟩, b, hb⟩ := hproper
    -- an established packet to outside, which no inserted rule matches
    have hrest := hready.rest ⟨a, b, true⟩ ha (by
      intro r hr
      obtain ⟨hrule, habsent⟩ := mem_fresh.mp hr
      simp only [lock_rules, List.mem_cons, List.not_mem_nil, or_false] at hrule
      rcases hrule with rfl | rfl | rfl
      · exact absurd hest habsent
      · simp [Host.hit, hb]
      · exact absurd hegress habsent)
    have hhit : host.hit (.egress subnet : Rule ν α) ⟨a, b, true⟩ = true := by
      simp [Host.hit, ha, hb]
    obtain ⟨x, hrule, hx, hdec, habove⟩ :=
      decider_locks (p := ⟨a, b, true⟩) h hapart ha ((hchain rfl).mp hest) rfl
    simp only [lock_rules, List.mem_cons, List.not_mem_nil, or_false] at hrule
    rcases hrule with rfl | rfl | rfl
    · rcases habove (.egress subnet) ((hchain rfl).mp hegress) hhit with heq | habove
      · cases heq
      · exact (hsub rfl rfl).mpr habove
    · simp [Host.hit, hb] at hx
    · exact absurd ⟨subnet, hdec⟩ (hrest.established rfl)
  · intro horder
    refine ⟨fun hest => (horder hest).subset (by simp), ?_⟩
    intro p hp hfresh
    -- one rule of the lock is meant for the packet, and it is in the chain
    by_cases hest : p.established = true
    · have hmem := present_of_unmatched hfresh (r := .established) (by simp [lock_rules]) hest
      obtain ⟨x, hrule, hx, hdec, habove⟩ :=
        decider_locks h hapart hp ((hchain rfl).mp hmem) hest
      simp only [lock_rules, List.mem_cons, List.not_mem_nil, or_false] at hrule
      rcases hrule with rfl | rfl | rfl
      · exact treats_return hdec rfl (Or.inl hest)
      · exact treats_return hdec rfl (Or.inl hest)
      · -- the drop rule would stand above the shared rule
        rcases habove .established ((hchain rfl).mp hmem) hest with heq | habove
        · cases heq
        · exact absurd habove (sublist_asymm h.nodup ((hsub rfl rfl).mp (horder hmem)))
    · have hest : p.established = false := by simpa using hest
      have hshared : host.hit (.established : Rule ν α) p = false := hest
      by_cases hdst : host.contains subnet p.dst = true
      · have hhit : host.hit (.intra subnet : Rule ν α) p = true := by
          simp [Host.hit, hp, hdst]
        have hmem := present_of_unmatched hfresh (by simp [lock_rules]) hhit
        obtain ⟨x, hrule, hx, hdec, -⟩ := decider_locks h hapart hp ((hchain rfl).mp hmem) hhit
        simp only [lock_rules, List.mem_cons, List.not_mem_nil, or_false] at hrule
        rcases hrule with rfl | rfl | rfl
        · exact treats_return hdec rfl (Or.inr hdst)
        · exact treats_return hdec rfl (Or.inr hdst)
        · simp [Host.hit, hdst] at hx
      · have hdst : host.contains subnet p.dst = false := by simpa using hdst
        have hhit : host.hit (.egress subnet : Rule ν α) p = true := by
          simp [Host.hit, hp, hdst]
        have hmem := present_of_unmatched hfresh (by simp [lock_rules]) hhit
        obtain ⟨x, hrule, hx, hdec, -⟩ := decider_locks h hapart hp ((hchain rfl).mp hmem) hhit
        simp only [lock_rules, List.mem_cons, List.not_mem_nil, or_false] at hrule
        rcases hrule with rfl | rfl | rfl
        · rw [hshared] at hx
          cases hx
        · simp [Host.hit, hdst] at hx
        · exact treats_drop hdec hest hdst

/-- **When a completed lock is effective**, after any history of runs, some
    of them interrupted, from a chain with none of the lock's rules: exactly
    if the chain was ready for it, which among disjoint subnets is a matter
    of where the shared rule stands. -/
theorem lock_effective_iff (host : Host ν α Addr) (below : List (Rule ν α)) (hclean : Clean below)
    (history : List (Run ν)) (subnet : ν) (hproper : host.Proper subnet) :
    (host.Effective (lock subnet (play Run.exec below history)) subnet ↔
      host.Ready (play Run.exec below history) subnet) ∧
    (host.Apart (play Run.exec below history) subnet →
      (host.Ready (play Run.exec below history) subnet ↔
        (.established ∈ play Run.exec below history →
          [.established, .egress subnet].Sublist (play Run.exec below history)))) := by
  obtain ⟨locks, hlayered⟩ := layered_play hclean history
  refine ⟨effective_iff_ready hproper, ?_⟩
  intro hapart
  exact ready_iff hlayered hclean hproper hapart

end reached

/-! ## Two networks -/

section small

/-- Two networks, each with one address, and the internet; no administrator's
    rule. -/
def small_host : Host Bool Empty (Option Bool) where
  contains := fun subnet a => decide (a = some subnet)
  hits := fun rule => rule.elim
  target := fun rule => rule.elim

/-- The same with an administrator's rule against the internet. -/
def guarded_host : Host Bool Unit (Option Bool) where
  contains := fun subnet a => decide (a = some subnet)
  hits := fun _ p => decide (p.dst = none)
  target := fun _ => .REJECT

theorem guarded_host_proper (subnet : Bool) : guarded_host.Proper subnet :=
  ⟨⟨some subnet, by simp [guarded_host]⟩, none, by simp [guarded_host]⟩

theorem guarded_host_apart (chain : List (Rule Bool Unit)) (subnet : Bool) :
    guarded_host.Apart chain subnet := by
  intro other hne _ a ha
  have ha : a = some subnet := by simpa [guarded_host] using ha
  simp [guarded_host, ha, Ne.symm hne]

/-- One network is locked, and the lock of the other is interrupted behind its
    first command. -/
def interrupted_history : List (Run Bool) :=
  [⟨.lock_egress, some false, none⟩, ⟨.lock_egress, some true, some 1⟩]

/-- Run again, the lock of the first network is effective: the shared rule is
    there, and stands above its drop rule. -/
theorem lock_effective_iff_again :
    .established ∈ play Run.exec [Rule.admin ()] interrupted_history ∧
      guarded_host.Effective
        (lock false (play Run.exec [.admin ()] interrupted_history)) false := by
  have hall := lock_effective_iff guarded_host [.admin ()] (by simp [Clean, Rule.isLock])
    interrupted_history false (guarded_host_proper false)
  have hsub : [Rule.established, .egress false].Sublist
      (play Run.exec [Rule.admin ()] interrupted_history) := by
    decide
  exact ⟨hsub.subset List.mem_cons_self,
    hall.1.mpr ((hall.2 (guarded_host_apart _ false)).mpr fun _ => hsub)⟩

/-- The second is not: the drop rule of the second network stands above the
    shared rule, and takes its established connections. -/
theorem second_lock_not_effective :
    ¬∀ (below : List (Rule Bool Empty)) (history : List (Run Bool)) (subnet : Bool), Clean below →
      small_host.Effective (lock subnet (play Run.exec below history)) subnet := by
  intro hall
  have heff := hall [] [⟨.lock_egress, some false, none⟩] true (by simp [Clean])
  exact (heff ⟨some true, none, true⟩ (by decide)).established rfl ⟨true, by decide⟩

end small

end Syndicate.Egress
