import ShadeGraph.Proofs.Outcome

/-!
# Steps that correspond

Two steps correspond if they do the same from related states: both fail with the same error, or both end well with
results that a map takes to each other, and in either case the states that they leave behind are related again.
-/

namespace ShadeGraph

variable {ε σ τ α β γ δ : Type} {R : σ → τ → Prop}

/-- What a step gives, without the state that it leaves behind. -/
def outcome : EStateM.Result ε σ α → Except ε α
  | .ok a _ => .ok a
  | .error e _ => .error e

theorem exists_ok_of_isOk {x : EStateM.Result ε σ α} (h : (outcome x).isOk = true) : ∃ a s, x = .ok a s := by
  cases x with
  | ok a s => exact ⟨a, s, rfl⟩
  | error e s => cases h

/-- The state that a step leaves behind. -/
def stateAfter : EStateM.Result ε σ α → σ
  | .ok _ s => s
  | .error _ s => s

/-- Two outcomes that agree, up to the map `φ` of results and the relation `R` of states. -/
inductive Matches (R : σ → τ → Prop) (φ : α → β) : EStateM.Result ε σ α → EStateM.Result ε τ β → Prop
  | ok {a : α} {s : σ} {t : τ} (states : R s t) : Matches R φ (.ok a s) (.ok (φ a) t)
  | error {e : ε} {s : σ} {t : τ} (states : R s t) : Matches R φ (.error e s) (.error e t)

theorem Matches.outcome_eq {φ : α → β} {x : EStateM.Result ε σ α} {y : EStateM.Result ε τ β} (h : Matches R φ x y) :
    outcome y = (outcome x).map φ := by
  cases h with
  | ok => rfl
  | error => rfl

theorem Matches.stateAfter {φ : α → β} {x : EStateM.Result ε σ α} {y : EStateM.Result ε τ β} (h : Matches R φ x y) :
    R (stateAfter x) (stateAfter y) := by
  cases h with
  | ok states => exact states
  | error states => exact states

/-- Two steps whose outcomes agree from related states. -/
def Simulates (R : σ → τ → Prop) (φ : α → β) (m : EStateM ε σ α) (m' : EStateM ε τ β) : Prop :=
  ∀ s t, R s t → Matches R φ (m s) (m' t)

namespace Simulates

theorem pure {φ : α → β} {a : α} {b : β} (h : b = φ a) :
    Simulates R φ (Pure.pure a : EStateM ε σ α) (Pure.pure b : EStateM ε τ β) := by
  subst h
  exact fun _ _ hst => .ok hst

theorem throw {φ : α → β} (e : ε) : Simulates R φ (throw e : EStateM ε σ α) (throw e : EStateM ε τ β) :=
  fun _ _ hst => .error hst

theorem throw_bind {φ : γ → δ} (e : ε) {k : α → EStateM ε σ γ} {k' : β → EStateM ε τ δ} :
    Simulates R φ ((MonadExcept.throw e : EStateM ε σ α) >>= k) ((MonadExcept.throw e : EStateM ε τ β) >>= k') :=
  fun _ _ hst => .error hst

/-- The steps behind a step need to correspond only for the results that it can have. -/
theorem bind_of_ok {φ : α → β} {ψ : γ → δ} {m : EStateM ε σ α} {m' : EStateM ε τ β} {k : α → EStateM ε σ γ}
    {k' : β → EStateM ε τ δ} (hm : Simulates R φ m m')
    (hk : ∀ a, (∃ s s', m s = .ok a s') → Simulates R ψ (k a) (k' (φ a))) : Simulates R ψ (m >>= k) (m' >>= k') := by
  intro s t hst
  change Matches R ψ (EStateM.bind m k s) (EStateM.bind m' k' t)
  have h := hm s t hst
  unfold EStateM.bind
  generalize hx : m s = x, m' t = y at h ⊢
  cases h with
  | ok states => exact hk _ ⟨s, _, hx⟩ _ _ states
  | error states => exact .error states

theorem bind {φ : α → β} {ψ : γ → δ} {m : EStateM ε σ α} {m' : EStateM ε τ β} {k : α → EStateM ε σ γ}
    {k' : β → EStateM ε τ δ} (hm : Simulates R φ m m') (hk : ∀ a, Simulates R ψ (k a) (k' (φ a))) :
    Simulates R ψ (m >>= k) (m' >>= k') :=
  bind_of_ok hm fun a _ => hk a

theorem get_bind {ψ : γ → δ} {k : σ → EStateM ε σ γ} {k' : τ → EStateM ε τ δ}
    (h : ∀ s t, R s t → Matches R ψ (k s s) (k' t t)) : Simulates R ψ (get >>= k) (get >>= k') :=
  h

theorem modify {f : σ → σ} {f' : τ → τ} (h : ∀ s t, R s t → R (f s) (f' t)) :
    Simulates R id (modify f : EStateM ε σ Unit) (modify f' : EStateM ε τ Unit) :=
  fun s t hst => .ok (h s t hst)

theorem lift {R : σ → τ → Prop} {φ : α → β} {x : Except Error α} {y : Except Error β} (h : y = x.map φ) :
    Simulates R φ (liftM x : EStateM Error σ α) (liftM y : EStateM Error τ β) := by
  subst h
  cases x with
  | ok a => exact fun _ _ hst => .ok hst
  | error e => exact fun _ _ hst => .error hst

theorem lift_bind {R : σ → τ → Prop} {φ : α → β} {ψ : γ → δ} {x : Except Error α} {y : Except Error β}
    {k : α → EStateM Error σ γ} {k' : β → EStateM Error τ δ} (h : y = x.map φ)
    (hk : ∀ a, x = .ok a → Simulates R ψ (k a) (k' (φ a))) : Simulates R ψ (liftM x >>= k) (liftM y >>= k') := by
  refine bind_of_ok (lift h) ?_
  rintro a ⟨s, s', hx⟩
  exact hk a (state_lift_eq_ok.mp hx).1

theorem mapM {φ : α → β} {f : γ → EStateM ε σ α} {f' : δ → EStateM ε τ β} {ψ : γ → δ} (l : List γ)
    (h : ∀ c ∈ l, Simulates R φ (f c) (f' (ψ c))) : Simulates R (List.map φ) (l.mapM f) ((l.map ψ).mapM f') := by
  induction l with
  | nil => exact pure rfl
  | cons c l ih =>
    rw [List.map_cons, List.mapM_cons, List.mapM_cons]
    refine bind (h c List.mem_cons_self) fun a => bind (ih fun d hd => h d (List.mem_cons_of_mem c hd)) fun rest => ?_
    exact pure rfl

theorem foldlM {φ : α → β} {f : α → γ → EStateM ε σ α} {f' : β → γ → EStateM ε τ β} {P : α → Prop} (l : List γ)
    (hkeep : ∀ s a, ∀ c ∈ l, P a → ∀ a' s', f a c s = .ok a' s' → P a')
    (h : ∀ a, ∀ c ∈ l, P a → Simulates R φ (f a c) (f' (φ a) c)) :
    ∀ a, P a → Simulates R φ (l.foldlM f a) (l.foldlM f' (φ a)) := by
  induction l with
  | nil => exact fun a _ => pure rfl
  | cons c l ih =>
    intro a ha
    rw [List.foldlM_cons, List.foldlM_cons]
    refine bind_of_ok (h a c List.mem_cons_self ha) ?_
    rintro a' ⟨s, s', hstep⟩
    exact ih (fun s a d hd => hkeep s a d (List.mem_cons_of_mem c hd)) (fun a d hd => h a d (List.mem_cons_of_mem c hd))
      a' (hkeep s a c List.mem_cons_self ha a' s' hstep)

theorem forM {f : γ → EStateM ε σ Unit} {f' : δ → EStateM ε τ Unit} {ψ : γ → δ} (l : List γ)
    (h : ∀ c ∈ l, Simulates R id (f c) (f' (ψ c))) : Simulates R id (l.forM f) ((l.map ψ).forM f') := by
  induction l with
  | nil => exact pure rfl
  | cons c l ih => exact bind (h c List.mem_cons_self) fun _ => ih fun d hd => h d (List.mem_cons_of_mem c hd)

end Simulates

end ShadeGraph
