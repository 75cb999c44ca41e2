import TriangleTam.Scope

/-!
# Addresses in a tree of scopes

A scope in a tree has an address: the numbers of the scopes that lead to it from the outermost one,
each counted from zero among those directly inside the one before. Two scopes are the same one if
their addresses are. Main statements: `nodup_addresses` and `mem_addresses_iff`, every scope is
listed once, and `chains_eq`, the chain of a scope is that of the frames on the way to it.
-/

namespace TriangleTam.ScopeTree

variable {δ : Type}

/-- The scope with an address, if there is one. -/
def at? (t : ScopeTree δ) : List Nat → Option (ScopeTree δ)
  | [] => some t
  | i :: rest => t.inner[i]?.bind (·.at? rest)

/-- The chain from the scope with an address outward, behind which `outer` comes. -/
def chainAt (outer : Chain δ) (t : ScopeTree δ) : List Nat → Chain δ
  | [] => t.frame :: outer
  | i :: rest =>
    match t.inner[i]? with
    | some u => u.chainAt (t.frame :: outer) rest
    | none => t.frame :: outer

mutual

/-- The addresses of a scope and of all scopes inside it, in the order in which they were
opened. -/
def addresses : ScopeTree δ → List (List Nat)
  | node _ _ inner => [] :: addressesFrom 0 inner

/-- The addresses of scopes one after the other, the first of which has number `i`. -/
def addressesFrom (i : Nat) : List (ScopeTree δ) → List (List Nat)
  | [] => []
  | t :: ts => t.addresses.map (i :: ·) ++ addressesFrom (i + 1) ts

end

@[simp] theorem at?_nil (t : ScopeTree δ) : t.at? [] = some t := rfl

@[simp] theorem at?_cons (t : ScopeTree δ) (i : Nat) (rest : List Nat) :
    t.at? (i :: rest) = t.inner[i]?.bind (·.at? rest) := rfl

/-- The last number of an address counts the scopes directly inside the one before. -/
theorem at?_append_one (t : ScopeTree δ) (address : List Nat) (i : Nat) :
    t.at? (address ++ [i]) = (t.at? address).bind (·.inner[i]?) := by
  induction address generalizing t with
  | nil => simp
  | cons j rest ih =>
    rw [List.cons_append, at?_cons, at?_cons]
    cases t.inner[j]? with
    | none => rfl
    | some u => exact ih u

section Chains

variable {t u v : ScopeTree δ} {outer : Chain δ} {address : List Nat} {i : Nat}

theorem length_chainAt (found : t.at? address = some u) :
    (t.chainAt outer address).length = outer.length + address.length + 1 := by
  induction address generalizing t outer with
  | nil => rfl
  | cons i rest ih =>
    obtain ⟨w, inside, found⟩ := Option.bind_eq_some_iff.1 found
    rw [chainAt, inside]
    simp only [ih found, List.length_cons]
    omega

/-- The parent of a scope is the one it is directly inside. -/
theorem chainAt_append_one (found : t.at? address = some u) (inside : u.inner[i]? = some v) :
    t.chainAt outer (address ++ [i]) = v.frame :: t.chainAt outer address := by
  induction address generalizing t outer with
  | nil =>
    cases found
    simp only [List.nil_append, chainAt, inside]
  | cons j rest ih =>
    obtain ⟨w, first, found⟩ := Option.bind_eq_some_iff.1 found
    rw [List.cons_append, chainAt, chainAt, first]
    exact ih found

end Chains

section Addresses

theorem mem_addressesFrom_iff {address : List Nat} {i : Nat} {ts : List (ScopeTree δ)} :
    address ∈ addressesFrom i ts ↔
      ∃ j rest t, address = (i + j) :: rest ∧ ts[j]? = some t ∧ rest ∈ t.addresses := by
  induction ts generalizing i with
  | nil => simp [addressesFrom]
  | cons t ts ih =>
    rw [addressesFrom, List.mem_append, List.mem_map, ih]
    constructor
    · rintro (⟨rest, member, rfl⟩ | ⟨j, rest, u, rfl, found, member⟩)
      · exact ⟨0, rest, t, rfl, rfl, member⟩
      · exact ⟨j + 1, rest, u, by rw [Nat.add_right_comm, Nat.add_assoc], found, member⟩
    · rintro ⟨j, rest, u, rfl, found, member⟩
      cases j with
      | zero =>
        cases found
        exact .inl ⟨rest, member, rfl⟩
      | succ j =>
        exact .inr ⟨j, rest, u, by rw [Nat.add_right_comm, Nat.add_assoc], found, member⟩

theorem mem_addresses_iff {t : ScopeTree δ} {address : List Nat} :
    address ∈ t.addresses ↔ (t.at? address).isSome = true := by
  induction address generalizing t with
  | nil =>
    cases t
    simp [addresses]
  | cons i rest ih =>
    obtain ⟨site, frame, inner⟩ := t
    have inside : i :: rest ∈ (node site frame inner).addresses ↔
        ∃ u, inner[i]? = some u ∧ rest ∈ u.addresses := by
      rw [addresses, List.mem_cons, mem_addressesFrom_iff]
      constructor
      · rintro (eq | ⟨j, rest', u, eq, found, member⟩)
        · cases eq
        · obtain ⟨rfl, rfl⟩ := List.cons.inj eq
          exact ⟨u, by rwa [Nat.zero_add], member⟩
      · rintro ⟨u, found, member⟩
        exact .inr ⟨i, rest, u, by rw [Nat.zero_add], found, member⟩
    rw [inside, at?_cons]
    show _ ↔ (inner[i]?.bind (·.at? rest)).isSome = true
    cases inner[i]? with
    | none => simp
    | some u => simp [ih]

mutual

theorem nodup_addresses : ∀ t : ScopeTree δ, t.addresses.Nodup
  | node _ _ inner => by
    rw [addresses, List.nodup_cons]
    refine ⟨?_, nodup_addressesFrom 0 inner⟩
    rw [mem_addressesFrom_iff]
    rintro ⟨j, rest, t, eq, -⟩
    cases eq

theorem nodup_addressesFrom (i : Nat) : ∀ ts : List (ScopeTree δ), (addressesFrom i ts).Nodup
  | [] => .nil
  | t :: ts => by
    have here : (t.addresses.map (i :: ·)).Nodup :=
      List.pairwise_map.2 ((nodup_addresses t).imp fun ne eq => ne (List.cons.inj eq).2)
    refine List.nodup_append.2 ⟨here, nodup_addressesFrom (i + 1) ts, ?_⟩
    intro a first b later
    -- Those that come later have larger first numbers.
    obtain ⟨rest, -, rfl⟩ := List.mem_map.1 first
    obtain ⟨j, rest', u, rfl, -⟩ := mem_addressesFrom_iff.1 later
    intro eq
    have := (List.cons.inj eq).1
    omega

end

mutual

/-- The chains of a tree are those of its addresses. -/
theorem chains_eq (outer : Chain δ) : ∀ t : ScopeTree δ,
    t.chains outer =
      t.addresses.filterMap fun a => (t.at? a).map fun u => (u, t.chainAt outer a)
  | node site frame inner => by
    rw [chains, addresses, List.filterMap_cons]
    have rest := chainsAll_eq outer site frame [] inner
    rw [List.nil_append, List.length_nil] at rest
    rw [rest]
    rfl

/-- The chains of the scopes directly inside another, of which those in `before` are left out. -/
theorem chainsAll_eq (outer : Chain δ) (site : Pos) (frame : Frame δ)
    (before : List (ScopeTree δ)) : ∀ ts : List (ScopeTree δ),
    chainsAll (frame :: outer) ts =
      (addressesFrom before.length ts).filterMap fun a =>
        ((node site frame (before ++ ts)).at? a).map fun u =>
          (u, (node site frame (before ++ ts)).chainAt outer a)
  | [] => rfl
  | t :: ts => by
    have inside : (node site frame (before ++ t :: ts)).inner[before.length]? = some t := by
      simp [inner]
    have rest := chainsAll_eq outer site frame (before ++ [t]) ts
    rw [List.append_assoc, List.length_append] at rest
    rw [chainsAll, addressesFrom, List.filterMap_append, List.filterMap_map, chains_eq _ t]
    have here : ((fun a => ((node site frame (before ++ t :: ts)).at? a).map fun u =>
        (u, (node site frame (before ++ t :: ts)).chainAt outer a)) ∘ (before.length :: ·)) =
        fun a => (t.at? a).map fun u => (u, t.chainAt (frame :: outer) a) := by
      funext a
      simp only [Function.comp_apply, at?_cons, chainAt, inside, Option.bind_some]
      rfl
    rw [here, rest]
    rfl

end

end Addresses

end TriangleTam.ScopeTree
