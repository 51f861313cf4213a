import UniSsh.Sync.Handled

/-!
# Account states

A device keeps the state with the highest version and, of two, the greater signature; so all
devices of an account end with the same state.
-/

namespace UniSsh

open List Storage

/-- Not newer: of a lower version, or of the same version with no greater signature. -/
def AccountStateObject.AtMost (a b : AccountStateObject) : Prop :=
  a.version < b.version ∨ (a.version = b.version ∧ a.signature ≤ b.signature)

/-- A state that the account signed and storage can hold. -/
structure AccountStateObject.Valid (P : Primitives) (owner : Bytes) (a : AccountStateObject) :
    Prop where
  own : a.authorPubkey = owner
  signed : verifyAccountState P a.authorPubkey a.version a.payload a.signature = .ok ()
  fits : a.version ≤ i64Max

/-- The account's state on a device. -/
def Storage.heldState (s : Storage) (owner : Bytes) : Option AccountStateObject :=
  (s.getAccountState owner).map fun stored =>
    { authorPubkey := stored.authorPubkey, version := stored.version, payload := stored.payload,
      signature := stored.signature }

/-- A device receives states one after the other. -/
def receiveStates (P : Primitives) (ctx : SyncContext) (s : Storage)
    (received : List AccountStateObject) : Storage :=
  received.foldl (fun s a => finalState ((processAccountState P ctx a).run s)) s

/-- The newest of the state a device held and those it received. -/
inductive Newest (held : Option AccountStateObject) (received : List AccountStateObject) :
    Option AccountStateObject → Prop where
  | kept (all : ∀ a ∈ received, ∃ b, held = some b ∧ a.AtMost b) : Newest held received held
  | taken (a : AccountStateObject) (mem : a ∈ received) (newer : ∀ b, held = some b → ¬ a.AtMost b)
      (all : ∀ b ∈ received, b.AtMost a) : Newest held received (some a)

namespace AccountStateObject

variable {a b c : AccountStateObject}

theorem AtMost.total (a b : AccountStateObject) : a.AtMost b ∨ b.AtMost a := by
  by_cases same : a.version = b.version
  · exact (List.le_total a.signature b.signature).imp (.inr ⟨same, ·⟩) (.inr ⟨same.symm, ·⟩)
  · exact (UInt64.lt_or_lt_of_ne same).imp .inl .inl

theorem AtMost.trans (first : a.AtMost b) (second : b.AtMost c) : a.AtMost c := by
  unfold AtMost at *
  grind [le_trans]

theorem AtMost.antisymm (first : a.AtMost b) (second : b.AtMost a) :
    a.version = b.version ∧ a.signature = b.signature := by
  unfold AtMost at *
  grind [le_antisymm]

end AccountStateObject

variable {P : Primitives} {ctx : SyncContext} {owner : Bytes} {a : AccountStateObject}
  {held x y : Option AccountStateObject} {received received' : List AccountStateObject}

theorem processAccountState_newest (isOwner : ctx.genesisOwner = owner) (valid : a.Valid P owner)
    (s : Storage) :
    Newest (s.heldState owner) [a]
      ((finalState ((processAccountState P ctx a).run s)).heldState owner) := by
  obtain ⟨rfl, signed, fits⟩ := valid
  obtain ⟨s', set⟩ :
      ∃ s', s.setAccountState a.authorPubkey a.version a.payload a.signature = .ok s' :=
    ⟨_, setAccountState_eq_ok.mpr ⟨⟨a.version, fits⟩, rfl, rfl⟩⟩
  have alone : ∀ b ∈ [a], b.AtMost a := by
    intro b mem
    rw [mem_singleton.mp mem]
    exact .inr ⟨rfl, List.le_refl _⟩
  have written : (∀ b, s.heldState a.authorPubkey = some b → ¬ a.AtMost b) →
      Newest (s.heldState a.authorPubkey) [a] (s'.heldState a.authorPubkey) := by
    intro newer
    have holds : s'.heldState a.authorPubkey = some a := by
      obtain ⟨n, isVersion, rfl⟩ := setAccountState_eq_ok.mp set
      simp [heldState, getAccountState, mapAccountStateRow, isVersion]
    rw [holds]
    exact .taken a mem_cons_self newer alone
  unfold processAccountState
  rw [if_neg (not_not.mpr isOwner.symm), signed]
  rw [if_neg (UInt64.not_lt.mpr fits), EStateM.run_bind, EStateM.run_get]
  dsimp only
  cases found : s.getAccountState a.authorPubkey with
  | none =>
    rw [EStateM.run_bind, storageWrite_run, set]
    refine written fun b held => ?_
    rw [heldState, found] at held
    cases held
  | some =>
    dsimp only
    split
    · next stale =>
      refine .kept fun b mem => ⟨_, by rw [heldState, found]; rfl, ?_⟩
      rw [mem_singleton.mp mem]
      exact stale
    · next newer =>
      rw [EStateM.run_bind, storageWrite_run, set]
      refine written fun b held => ?_
      rw [heldState, found] at held
      cases held
      exact newer

/-- One more state, and then the others. -/
theorem Newest.cons (first : Newest held [a] x) (later : Newest x received y) :
    Newest held (a :: received) y := by
  cases first with
  | kept all =>
    cases later with
    | kept all' => exact .kept (forall_mem_cons.mpr ⟨all a mem_cons_self, all'⟩)
    | taken b mem newer all' =>
      obtain ⟨c, isHeld, atMost⟩ := all a mem_cons_self
      refine .taken b (mem_cons_of_mem _ mem) newer (forall_mem_cons.mpr ⟨?_, all'⟩)
      exact atMost.trans ((AccountStateObject.AtMost.total c b).resolve_right (newer c isHeld))
  | taken b mem newer all =>
    obtain rfl := mem_singleton.mp mem
    cases later with
    | kept all' =>
      refine .taken b mem_cons_self newer (forall_mem_cons.mpr ⟨all b mem, ?_⟩)
      intro c inside
      obtain ⟨_, ⟨⟩, atMost⟩ := all' c inside
      exact atMost
    | taken c inside newer' all' =>
      have above := (AccountStateObject.AtMost.total b c).resolve_right (newer' b rfl)
      refine .taken c (mem_cons_of_mem _ inside) (fun d isHeld atMost => ?_)
        (forall_mem_cons.mpr ⟨above, all'⟩)
      exact newer d isHeld (above.trans atMost)

theorem Newest.congr (same : ∀ a, a ∈ received' ↔ a ∈ received)
    (newest : Newest held received' x) : Newest held received x := by
  cases newest with
  | kept all => exact .kept fun a mem => all a ((same a).mpr mem)
  | taken a mem newer all =>
    exact .taken a ((same a).mp mem) newer fun b mem => all b ((same b).mpr mem)

theorem Newest.unique (first : Newest held received x) (second : Newest held received y)
    (binds : ∀ a ∈ received, ∀ b ∈ received, a.version = b.version → a.signature = b.signature →
      a = b) : x = y := by
  cases first with
  | kept all =>
    cases second with
    | kept => rfl
    | taken a mem newer =>
      obtain ⟨b, isHeld, atMost⟩ := all a mem
      exact absurd atMost (newer b isHeld)
  | taken a mem newer all =>
    cases second with
    | kept all' =>
      obtain ⟨b, isHeld, atMost⟩ := all' a mem
      exact absurd atMost (newer b isHeld)
    | taken b mem' _ all' =>
      obtain ⟨version, signature⟩ := (all' a mem).antisymm (all b mem')
      rw [binds a mem b mem' version signature]

theorem receiveStates_newest (isOwner : ctx.genesisOwner = owner)
    (valid : ∀ a ∈ received, a.Valid P owner) (s : Storage) :
    Newest (s.heldState owner) received ((receiveStates P ctx s received).heldState owner) := by
  induction received generalizing s with
  | nil => exact .kept nofun
  | cons _ _ ih =>
    obtain ⟨first, others⟩ := forall_mem_cons.mp valid
    exact (processAccountState_newest isOwner first s).cons (ih others _)

/-- Devices that received the same account states, in any order and number, hold the newest. -/
theorem account_states_converge (P : Primitives) {owner : Bytes} {ctx ctx' : SyncContext}
    (isOwner : ctx.genesisOwner = owner) (isOwner' : ctx'.genesisOwner = owner) {s s' : Storage}
    (start : s'.heldState owner = s.heldState owner) {received received' : List AccountStateObject}
    (same : ∀ a, a ∈ received' ↔ a ∈ received) (valid : ∀ a ∈ received, a.Valid P owner) :
    Newest (s.heldState owner) received ((receiveStates P ctx s received).heldState owner) ∧
    Newest (s.heldState owner) received ((receiveStates P ctx' s' received').heldState owner) ∧
    ((∀ a ∈ received, ∀ b ∈ received, a.version = b.version → a.signature = b.signature → a = b) →
      (receiveStates P ctx' s' received').heldState owner =
        (receiveStates P ctx s received).heldState owner) := by
  have first := receiveStates_newest isOwner valid s
  have second := receiveStates_newest isOwner' (fun a mem => valid a ((same a).mp mem)) s'
  rw [start] at second
  exact ⟨first, second.congr same, (second.congr same).unique first⟩

open Sample (ownerKey context)

/-- A state of the sample owner. -/
def Sample.accountState (version : UInt64) (payload : Bytes) : AccountStateObject :=
  { authorPubkey := ownerKey, version, payload
    signature := headerBytes .ed25519 ++
      Primitives.transparent.sign Sample.owner.signing
        (accountStateMessage .transparent version payload) }

/-- The two states, the later one first and twice. -/
theorem account_states_converge_two :
    (Sample.accountState 1 [1]).Valid .transparent ownerKey ∧
    (receiveStates .transparent { context with tenant := [8] } {}
        [Sample.accountState 2 [2], Sample.accountState 1 [1], Sample.accountState 2 [2]]).heldState
          ownerKey =
      (receiveStates .transparent context {}
        [Sample.accountState 1 [1], Sample.accountState 2 [2]]).heldState ownerKey := by
  have valid : ∀ a ∈ [Sample.accountState 1 [1], Sample.accountState 2 [2]],
      a.Valid .transparent ownerKey := by
    rw [forall_mem_cons, forall_mem_singleton]
    exact ⟨⟨rfl, by decide +kernel, by decide⟩, ⟨rfl, by decide +kernel, by decide⟩⟩
  refine ⟨valid _ mem_cons_self, (account_states_converge .transparent rfl rfl rfl ?_ valid).2.2 ?_⟩
  · grind
  · have different : (Sample.accountState 1 [1]).version ≠ (Sample.accountState 2 [2]).version := by
      decide
    grind

end UniSsh
