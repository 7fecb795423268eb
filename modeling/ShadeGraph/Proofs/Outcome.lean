import Mathlib.Data.List.Forall2
import ShadeGraph.Error

/-!
# Outcomes of steps that can fail

What is known about the parts of a composed step when the whole is known to have ended well.
-/

namespace ShadeGraph

variable {ε σ α β : Type}

/-! ## Lists side by side -/

theorem exists_of_forall₂ {R : α → β → Prop} {l : List α} {l' : List β} (h : List.Forall₂ R l l') {b : β}
    (hb : b ∈ l') : ∃ a ∈ l, R a b := by
  induction h with
  | nil => cases hb
  | cons hab _ ih =>
    rcases List.mem_cons.mp hb with rfl | hb
    · exact ⟨_, List.mem_cons_self, hab⟩
    · obtain ⟨a, ha, hab⟩ := ih hb
      exact ⟨a, List.mem_cons_of_mem _ ha, hab⟩

theorem exists_right_of_forall₂ {R : α → β → Prop} {l : List α} {l' : List β} (h : List.Forall₂ R l l') {a : α}
    (ha : a ∈ l) : ∃ b ∈ l', R a b := by
  induction h with
  | nil => cases ha
  | cons hab _ ih =>
    rcases List.mem_cons.mp ha with rfl | ha
    · exact ⟨_, List.mem_cons_self, hab⟩
    · obtain ⟨b, hb, hab⟩ := ih ha
      exact ⟨b, List.mem_cons_of_mem _ hb, hab⟩

theorem forall₂_congr {R S : α → β → Prop} (h : ∀ a b, R a b ↔ S a b) {l : List α} {l' : List β} :
    List.Forall₂ R l l' ↔ List.Forall₂ S l l' :=
  ⟨.imp fun a b => (h a b).mp, .imp fun a b => (h a b).mpr⟩

theorem exists_forall₂ {R : α → β → Prop} {l : List α} (h : ∀ a ∈ l, ∃ b, R a b) : ∃ l', List.Forall₂ R l l' := by
  induction l with
  | nil => exact ⟨[], .nil⟩
  | cons a l ih =>
    obtain ⟨b, hab⟩ := h a List.mem_cons_self
    obtain ⟨l', hl⟩ := ih fun a ha => h a (List.mem_cons_of_mem _ ha)
    exact ⟨b :: l', .cons hab hl⟩

theorem forall₂_comp {γ : Type} {R : α → β → Prop} {S : β → γ → Prop} {l : List α} {l' : List γ} :
    List.Forall₂ (fun a c => ∃ b, R a b ∧ S b c) l l' ↔ ∃ m, List.Forall₂ R l m ∧ List.Forall₂ S m l' := by
  constructor
  · intro h
    induction h with
    | nil => exact ⟨[], .nil, .nil⟩
    | cons hac _ ih =>
      obtain ⟨b, hab, hbc⟩ := hac
      obtain ⟨m, hm, hm'⟩ := ih
      exact ⟨b :: m, .cons hab hm, .cons hbc hm'⟩
  · rintro ⟨m, hm, hm'⟩
    induction hm generalizing l' with
    | nil =>
      cases hm'
      exact .nil
    | cons hab _ ih =>
      cases hm' with
      | cons hbc hrest => exact .cons ⟨_, hab, hbc⟩ (ih hrest)

/-! ## Steps without state -/

theorem except_bind_eq_ok {x : Except ε α} {f : α → Except ε β} {b : β} :
    x >>= f = .ok b ↔ ∃ a, x = .ok a ∧ f a = .ok b := by
  cases x with
  | error e => simp [bind, Except.bind]
  | ok a => simp [bind, Except.bind]

theorem except_bind_eq_error {x : Except ε α} {f : α → Except ε β} {e : ε} :
    x >>= f = .error e ↔ x = .error e ∨ ∃ a, x = .ok a ∧ f a = .error e := by
  cases x with
  | error e' => simp [bind, Except.bind]
  | ok a => simp [bind, Except.bind]

theorem except_map_eq_ok {x : Except ε α} {f : α → β} {b : β} : x.map f = .ok b ↔ ∃ a, x = .ok a ∧ f a = b := by
  cases x with
  | error e => simp [Except.map]
  | ok a => simp [Except.map]

theorem except_throw_ne_ok {e : ε} {a : α} : (throw e : Except ε α) ≠ .ok a := by
  simp [throw, throwThe, MonadExceptOf.throw]

theorem except_foldlM_inv {P : β → Prop} {f : β → α → Except ε β} (l : List α)
    (hstep : ∀ b, ∀ a ∈ l, P b → ∀ b', f b a = .ok b' → P b') :
    ∀ b b', P b → l.foldlM f b = .ok b' → P b' := by
  induction l with
  | nil =>
    intro b b' hb h
    obtain rfl : b = b' := by simpa [pure, Except.pure] using h
    exact hb
  | cons a l ih =>
    intro b b' hb h
    rw [List.foldlM_cons, except_bind_eq_ok] at h
    obtain ⟨b₁, h₁, h⟩ := h
    exact ih (fun b x hx => hstep b x (List.mem_cons_of_mem a hx)) b₁ b' (hstep b a List.mem_cons_self hb b₁ h₁) h

theorem except_foldlM_same {f : β → α → Except ε β} {b : β} (l : List α) (h : ∀ a ∈ l, f b a = .ok b) :
    l.foldlM f b = .ok b := by
  induction l with
  | nil => rfl
  | cons a l ih =>
    rw [List.foldlM_cons, h a List.mem_cons_self]
    exact ih fun x hx => h x (List.mem_cons_of_mem a hx)

theorem except_foldlM_error {f : β → α → Except ε β} {e : ε} (l : List α) :
    ∀ b, l.foldlM f b = .error e → ∃ b', ∃ a ∈ l, f b' a = .error e := by
  induction l with
  | nil => intro b h; simp [pure, Except.pure] at h
  | cons a l ih =>
    intro b h
    rw [List.foldlM_cons, except_bind_eq_error] at h
    rcases h with h | ⟨b₁, -, h⟩
    · exact ⟨b, a, List.mem_cons_self, h⟩
    · obtain ⟨b', x, hx, hfail⟩ := ih b₁ h
      exact ⟨b', x, List.mem_cons_of_mem a hx, hfail⟩

theorem except_foldlM_mono {f g : β → α → Except ε β} (l : List α)
    (hstep : ∀ b, ∀ a ∈ l, ∀ b', f b a = .ok b' → g b a = .ok b') :
    ∀ b b', l.foldlM f b = .ok b' → l.foldlM g b = .ok b' := by
  induction l with
  | nil => exact fun b b' h => h
  | cons a l ih =>
    intro b b' h
    rw [List.foldlM_cons, except_bind_eq_ok] at h ⊢
    obtain ⟨b₁, h₁, h₂⟩ := h
    exact ⟨b₁, hstep b a List.mem_cons_self b₁ h₁,
      ih (fun b x hx => hstep b x (List.mem_cons_of_mem a hx)) b₁ b' h₂⟩

theorem except_mapM_eq_ok_cons {f : α → Except ε β} {a : α} {l : List α} {bs : List β} :
    (a :: l).mapM f = .ok bs ↔ ∃ b rest, bs = b :: rest ∧ f a = .ok b ∧ l.mapM f = .ok rest := by
  rw [List.mapM_cons, except_bind_eq_ok]
  constructor
  · rintro ⟨b, hb, h⟩
    obtain ⟨rest, hrest, h⟩ := except_bind_eq_ok.mp h
    exact ⟨b, rest, (Except.ok.inj h).symm, hb, hrest⟩
  · rintro ⟨b, rest, rfl, hb, hrest⟩
    exact ⟨b, hb, except_bind_eq_ok.mpr ⟨rest, hrest, rfl⟩⟩

theorem except_mapM_nil_eq_ok {f : α → Except ε β} {bs : List β} : [].mapM f = .ok bs ↔ bs = [] := by
  simp [pure, Except.pure, eq_comm]

theorem except_mapM_eq_ok_iff {f : α → Except ε β} {l : List α} {bs : List β} :
    l.mapM f = .ok bs ↔ List.Forall₂ (fun a b => f a = .ok b) l bs := by
  induction l generalizing bs with
  | nil => rw [except_mapM_nil_eq_ok, List.forall₂_nil_left_iff]
  | cons a l ih =>
    rw [except_mapM_eq_ok_cons, List.forall₂_cons_left_iff]
    constructor
    · rintro ⟨b, rest, rfl, hb, hrest⟩
      exact ⟨b, rest, hb, ih.mp hrest, rfl⟩
    · rintro ⟨b, rest, hb, hrest, rfl⟩
      exact ⟨b, rest, rfl, hb, ih.mpr hrest⟩

theorem except_mapM_mem {f : α → Except ε β} {l : List α} {bs : List β} (h : l.mapM f = .ok bs) :
    ∀ b ∈ bs, ∃ a ∈ l, f a = .ok b :=
  fun _ hb => exists_of_forall₂ (except_mapM_eq_ok_iff.mp h) hb

theorem except_mapM_exists {f : α → Except ε β} {l : List α} {bs : List β} (h : l.mapM f = .ok bs) :
    ∀ a ∈ l, ∃ b ∈ bs, f a = .ok b :=
  fun _ ha => exists_right_of_forall₂ (except_mapM_eq_ok_iff.mp h) ha

theorem except_mapM_map_eq {γ : Type} {f : α → Except ε β} {p : β → γ} {q : α → γ} (hf : ∀ a b, f a = .ok b → p b = q a)
    (l : List α) : ∀ {bs : List β}, l.mapM f = .ok bs → bs.map p = l.map q := by
  induction l with
  | nil =>
    intro bs h
    rw [except_mapM_nil_eq_ok.mp h]
    rfl
  | cons a l ih =>
    intro bs h
    obtain ⟨b, rest, rfl, hb, hrest⟩ := except_mapM_eq_ok_cons.mp h
    rw [List.map_cons, List.map_cons, hf a b hb, ih hrest]

theorem except_mapM_getElem? {f : α → Except ε β} {l : List α} {b : β} :
    ∀ {bs : List β} {k : Nat}, l.mapM f = .ok bs → bs[k]? = some b → ∃ a, l[k]? = some a ∧ f a = .ok b := by
  induction l with
  | nil =>
    intro bs k h hb
    rw [except_mapM_nil_eq_ok.mp h] at hb
    cases hb
  | cons a l ih =>
    intro bs k h hb
    obtain ⟨first, rest, rfl, hfirst, hrest⟩ := except_mapM_eq_ok_cons.mp h
    cases k with
    | zero =>
      obtain rfl := Option.some.inj hb
      exact ⟨a, rfl, hfirst⟩
    | succ k => exact ih hrest hb

theorem except_mapM_find? {f : α → Except ε β} {p : α → Bool} {q : β → Bool} (hf : ∀ a b, f a = .ok b → q b = p a)
    {l : List α} {b : β} :
    ∀ {bs : List β}, l.mapM f = .ok bs → bs.find? q = some b → ∃ a, l.find? p = some a ∧ f a = .ok b := by
  induction l with
  | nil =>
    intro bs h hb
    rw [except_mapM_nil_eq_ok.mp h] at hb
    cases hb
  | cons a l ih =>
    intro bs h hb
    obtain ⟨first, rest, rfl, hfirst, hrest⟩ := except_mapM_eq_ok_cons.mp h
    cases hp : p a with
    | true =>
      rw [List.find?_cons_of_pos ((hf a first hfirst).trans hp)] at hb
      obtain rfl := Option.some.inj hb
      exact ⟨a, List.find?_cons_of_pos hp, hfirst⟩
    | false =>
      rw [List.find?_cons_of_neg (by simp [hf a first hfirst, hp])] at hb
      rw [List.find?_cons_of_neg (by simp [hp])]
      exact ih hrest hb

theorem except_map_bind_of_ok {γ δ : Type} {φ : α → β} {ψ : γ → δ} {x : Except ε α} {k : α → Except ε γ}
    {k' : β → Except ε δ} (h : ∀ a, x = .ok a → k' (φ a) = (k a).map ψ) : x.map φ >>= k' = (x >>= k).map ψ := by
  cases x with
  | error e => rfl
  | ok a => exact h a rfl

theorem except_map_bind {γ δ : Type} {φ : α → β} {ψ : γ → δ} {x : Except ε α} {k : α → Except ε γ} {k' : β → Except ε δ}
    (h : ∀ a, k' (φ a) = (k a).map ψ) : x.map φ >>= k' = (x >>= k).map ψ :=
  except_map_bind_of_ok fun a _ => h a

theorem except_foldlM_map {γ δ : Type} {φ : α → β} {ψ : γ → δ} {f : α → γ → Except ε α} {f' : β → δ → Except ε β}
    (l : List γ) (h : ∀ a, ∀ c ∈ l, f' (φ a) (ψ c) = (f a c).map φ) :
    ∀ a, (l.map ψ).foldlM f' (φ a) = (l.foldlM f a).map φ := by
  induction l with
  | nil => intro a; rfl
  | cons c l ih =>
    intro a
    rw [List.map_cons, List.foldlM_cons, List.foldlM_cons, h a c List.mem_cons_self]
    exact except_map_bind (ih fun a d hd => h a d (List.mem_cons_of_mem c hd))

theorem except_foldlM_hom {γ : Type} {φ : α → β} {f : α → γ → Except ε α} {f' : β → γ → Except ε β} {P : α → Prop}
    (l : List γ) (hkeep : ∀ a, ∀ c ∈ l, P a → ∀ a', f a c = .ok a' → P a')
    (h : ∀ a, ∀ c ∈ l, P a → f' (φ a) c = (f a c).map φ) :
    ∀ a, P a → l.foldlM f' (φ a) = (l.foldlM f a).map φ := by
  induction l with
  | nil => intro a _; rfl
  | cons c l ih =>
    intro a ha
    rw [List.foldlM_cons, List.foldlM_cons, h a c List.mem_cons_self ha]
    exact except_map_bind_of_ok fun a' ha' => ih (fun a d hd => hkeep a d (List.mem_cons_of_mem c hd))
      (fun a d hd => h a d (List.mem_cons_of_mem c hd)) a' (hkeep a c List.mem_cons_self ha a' ha')

theorem except_bind_fixed {φ : β → β} {x : Except ε α} {k : α → Except ε β} (h : ∀ a, (k a).map φ = k a) :
    (x >>= k).map φ = x >>= k := by
  cases x with
  | error e => rfl
  | ok a => exact h a

theorem except_mapM_fixed {φ : β → β} {f : α → Except ε β} (h : ∀ a, (f a).map φ = f a) (l : List α) :
    (l.mapM f).map (List.map φ) = l.mapM f := by
  induction l with
  | nil => rfl
  | cons a l ih =>
    rw [List.mapM_cons]
    refine (except_map_bind (x := f a) (φ := φ) fun b => ?_).symm.trans (by rw [h a])
    refine Eq.trans (congrArg (· >>= fun bs => pure (φ b :: bs)) ih.symm) ?_
    exact except_map_bind fun bs => rfl

/-! ## Steps with a state -/

theorem state_bind_eq_ok {m : EStateM ε σ α} {f : α → EStateM ε σ β} {s s' : σ} {b : β} :
    (m >>= f) s = .ok b s' ↔ ∃ a s₁, m s = .ok a s₁ ∧ f a s₁ = .ok b s' := by
  change EStateM.bind m f s = _ ↔ _
  unfold EStateM.bind
  cases h : m s with
  | ok a s₁ =>
    constructor
    · intro hf
      exact ⟨a, s₁, rfl, hf⟩
    · rintro ⟨a', s₂, heq, hf⟩
      cases heq
      exact hf
  | error e s₁ => simp

instance decidableEndsWell (m : EStateM ε σ Unit) (s : σ) : Decidable (∃ s', m s = .ok () s') :=
  match m s with
  | .ok () s' => .isTrue ⟨s', rfl⟩
  | .error _ _ => .isFalse fun ⟨_, h⟩ => nomatch h

theorem state_exists_bind {m : EStateM ε σ α} {f : α → EStateM ε σ β} {s s₁ : σ} {a : α} (hm : m s = .ok a s₁)
    (hf : ∃ b s', f a s₁ = .ok b s') : ∃ b s', (m >>= f) s = .ok b s' := by
  obtain ⟨b, s', hb⟩ := hf
  exact ⟨b, s', state_bind_eq_ok.mpr ⟨a, s₁, hm, hb⟩⟩

theorem state_lift_eq_ok {x : Except Error α} {s s' : σ} {a : α} :
    (liftM x : EStateM Error σ α) s = .ok a s' ↔ x = .ok a ∧ s' = s := by
  cases x with
  | ok b =>
    change EStateM.Result.ok b s = _ ↔ _
    simp [eq_comm]
  | error e =>
    change EStateM.Result.error e s = _ ↔ _
    simp

theorem state_bind_assoc_eq_ok {γ : Type} {m : EStateM ε σ α} {f : α → EStateM ε σ β} {g : β → EStateM ε σ γ} {s s' : σ}
    {c : γ} : (m >>= fun a => f a >>= g) s = .ok c s' ↔ ∃ b s₁, (m >>= f) s = .ok b s₁ ∧ g b s₁ = .ok c s' := by
  rw [← bind_assoc, state_bind_eq_ok]

theorem state_lift_ok_bind (a : α) (f : α → EStateM Error σ β) :
    (liftM (Except.ok a : Except Error α) >>= f : EStateM Error σ β) = f a := rfl

theorem state_lift_bind_eq_ok {x : Except Error α} {f : α → EStateM Error σ β} {s s' : σ} {b : β} :
    ((liftM x : EStateM Error σ α) >>= f) s = .ok b s' ↔ ∃ a, x = .ok a ∧ f a s = .ok b s' := by
  rw [state_bind_eq_ok]
  constructor
  · rintro ⟨a, s₁, hlift, h⟩
    obtain ⟨hx, rfl⟩ := state_lift_eq_ok.mp hlift
    exact ⟨a, hx, h⟩
  · rintro ⟨a, hx, h⟩
    exact ⟨a, s, state_lift_eq_ok.mpr ⟨hx, rfl⟩, h⟩

theorem state_pure_eq_ok {s s' : σ} {a b : α} : (pure a : EStateM ε σ α) s = .ok b s' ↔ b = a ∧ s' = s := by
  change EStateM.Result.ok a s = _ ↔ _
  simp [eq_comm]

theorem state_get_eq_ok {s s' a : σ} : (get : EStateM ε σ σ) s = .ok a s' ↔ a = s ∧ s' = s := by
  change EStateM.Result.ok s s = _ ↔ _
  simp [eq_comm]

theorem state_get_bind {f : σ → EStateM ε σ α} {s : σ} : (get >>= f) s = f s s := rfl

theorem state_throw_ne_ok {s s' : σ} {e : ε} {a : α} : (throw e : EStateM ε σ α) s ≠ .ok a s' := by
  change EStateM.Result.error e s ≠ _
  simp

theorem state_modify_eq_ok {f : σ → σ} {s s' : σ} {a : Unit} :
    (modify f : EStateM ε σ Unit) s = .ok a s' ↔ s' = f s := by
  change EStateM.Result.ok () (f s) = _ ↔ _
  simp [eq_comm]

theorem state_forM_append {f : α → EStateM ε σ Unit} {l l' : List α} {s s₁ s' : σ} (h : l.forM f s = .ok () s₁)
    (h' : l'.forM f s₁ = .ok () s') : (l ++ l').forM f s = .ok () s' := by
  induction l generalizing s with
  | nil =>
    obtain ⟨-, rfl⟩ := state_pure_eq_ok.mp h
    exact h'
  | cons a l ih =>
    obtain ⟨_, s₂, ha, hl⟩ := state_bind_eq_ok.mp h
    exact state_bind_eq_ok.mpr ⟨(), s₂, ha, ih hl⟩

theorem state_forM_map {φ : α → β} {f : α → EStateM ε σ Unit} {f' : β → EStateM ε σ Unit} (l : List α)
    (h : ∀ a ∈ l, f' (φ a) = f a) : (l.map φ).forM f' = l.forM f := by
  induction l with
  | nil => rfl
  | cons a l ih =>
    change (f' (φ a) >>= fun _ => (l.map φ).forM f') = (f a >>= fun _ => l.forM f)
    rw [h a List.mem_cons_self, ih fun b hb => h b (List.mem_cons_of_mem a hb)]

theorem state_foldlM_inv {P : σ → β → Prop} {f : β → α → EStateM ε σ β} (l : List α)
    (hstep : ∀ s b, ∀ a ∈ l, P s b → ∀ b' s', f b a s = .ok b' s' → P s' b') :
    ∀ s b b' s', P s b → l.foldlM f b s = .ok b' s' → P s' b' := by
  induction l with
  | nil =>
    intro s b b' s' hb h
    obtain ⟨rfl, rfl⟩ := state_pure_eq_ok.mp h
    exact hb
  | cons a l ih =>
    intro s b b' s' hb h
    rw [List.foldlM_cons, state_bind_eq_ok] at h
    obtain ⟨b₁, s₁, h₁, h⟩ := h
    exact ih (fun s b x hx => hstep s b x (List.mem_cons_of_mem a hx)) s₁ b₁ b' s'
      (hstep s b a List.mem_cons_self hb b₁ s₁ h₁) h

theorem state_foldlM_congr {P : σ → β → Prop} {f g : β → α → EStateM ε σ β} (l : List α)
    (hstep : ∀ s b, ∀ a ∈ l, P s b → f b a s = g b a s ∧ ∀ b' s', g b a s = .ok b' s' → P s' b') :
    ∀ s b, P s b → l.foldlM f b s = l.foldlM g b s := by
  induction l with
  | nil => exact fun s b _ => rfl
  | cons a l ih =>
    intro s b hb
    obtain ⟨heq, hkeeps⟩ := hstep s b a List.mem_cons_self hb
    rw [List.foldlM_cons, List.foldlM_cons]
    change EStateM.bind (f b a) _ s = EStateM.bind (g b a) _ s
    unfold EStateM.bind
    rw [heq]
    cases hresult : g b a s with
    | error e t => rfl
    | ok b' t =>
      exact ih (fun s b x hx => hstep s b x (List.mem_cons_of_mem a hx)) t b' (hkeeps b' t hresult)

theorem state_mapM_forall₂ {I : σ → Prop} {f : α → EStateM ε σ β} (l : List α)
    (hI : ∀ a ∈ l, ∀ s b s', I s → f a s = .ok b s' → I s') : ∀ {s : σ} {bs : List β} {s' : σ}, I s →
      l.mapM f s = .ok bs s' → List.Forall₂ (fun a b => ∃ t t', I t ∧ f a t = .ok b t') l bs := by
  induction l with
  | nil =>
    intro s bs s' _ h
    obtain ⟨rfl, -⟩ := state_pure_eq_ok.mp h
    exact .nil
  | cons a l ih =>
    intro s bs s' hs h
    rw [List.mapM_cons] at h
    obtain ⟨b, s₁, hb, h₁⟩ := state_bind_eq_ok.mp h
    obtain ⟨rest, s₂, hrest, hpure⟩ := state_bind_eq_ok.mp h₁
    obtain ⟨rfl, rfl⟩ := state_pure_eq_ok.mp hpure
    exact .cons ⟨s, s₁, hs, hb⟩
      (ih (fun c hc => hI c (List.mem_cons_of_mem a hc)) (hI a List.mem_cons_self s b s₁ hs hb) hrest)

end ShadeGraph
