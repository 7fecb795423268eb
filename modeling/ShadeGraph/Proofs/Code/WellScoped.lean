import ShadeGraph.Code

/-!
# Well scoped code

Code is *well scoped* when every variable that is read has been declared on a line before: in a block that is still
open, as a parameter of the function, or, for the last function, as a uniform in front of all functions. A reader goes
through the code from left to right and keeps the variables of the blocks that are open.

A body of the form `= let { … } in e` is special in that the result `e` stands behind the closing brace but belongs to
the block; whether the reader knows about this is a parameter.
-/

namespace ShadeGraph

def Token.declared? : Token → Option String
  | .declares x => some x
  | _ => none

/-- Whether a token is the name of a function that is defined here. -/
def Token.isDefinition : Token → Bool
  | .defines _ => true
  | _ => false

/-- A token that is neither a brace nor the name of a defined function, and reads only the given variables. -/
def Token.IsFlat (V : String → Prop) : Token → Prop
  | .reads x => V x
  | .opens | .closes | .defines _ => False
  | _ => True

namespace Code

/-- What is known at a place in the code. -/
structure Reader where
  /-- The variables in force: those of the open blocks, the innermost block first, and of the parameters last. -/
  blocks : List (List String)
  /-- The variables that the current line declares. -/
  line : List String := []
  /-- Whether the body of the function is a `let`. -/
  isLet : Bool := false

/-- The text in front of a block whose variables the result behind it may read. -/
def letText : String := "= let"

def Sees (uniforms : List String) (blocks : List (List String)) (x : String) : Prop :=
  x ∈ uniforms ∨ ∃ block ∈ blocks, x ∈ block

instance (uniforms : List String) (blocks : List (List String)) (x : String) : Decidable (Sees uniforms blocks x) :=
  inferInstanceAs (Decidable (_ ∨ _))

namespace Reader

/-- At the end of a line, the variables that it declares come into force. -/
def endLine (r : Reader) : Reader :=
  match r.blocks with
  | [] => { r with line := [] }
  | block :: outer => { r with blocks := (r.line ++ block) :: outer, line := [] }

/-- Reads a token, unless it is out of place: a variable that is not in force, a function inside of a block, or a brace
without its counterpart. -/
def step (lets : Bool) (uniforms : List String) (r : Reader) : Token → Option Reader
  | .reads x => if Sees uniforms r.blocks x then some r else none
  | .declares x => some { r with line := x :: r.line }
  | .defines _ => if r.blocks.length ≤ 1 then some { blocks := [[]] } else none
  | .opens =>
    match r.blocks with
    | [] => none
    | block :: outer => some { r with blocks := [] :: block :: outer }
  | .closes =>
    match r.blocks with
    | [body, parameters] => some { r with blocks := [if r.isLet then body ++ parameters else parameters] }
    | _ :: block :: outer => some { r with blocks := block :: outer }
    | _ => none
  | .text s =>
    if s = "\n" then some r.endLine
    else if lets ∧ s = letText ∧ r.blocks.length = 1 then some { r with isLet := true }
    else some r
  | .writes _ | .calls _ | .sourceLine _ _ => some r

end Reader

def scan (lets : Bool) (uniforms : List String) (r : Reader) (code : Code) : Option Reader :=
  code.foldlM (Reader.step lets uniforms) r

def declared (code : Code) : List String := code.filterMap Token.declared?

/-- The code up to the name of the last function. -/
def library (code : Code) : Code := (code.reverse.dropWhile fun t => !t.isDefinition).reverse

def main (code : Code) : Code := (code.reverse.takeWhile fun t => !t.isDefinition).reverse

/-- The variables that are declared in front of all functions. -/
def uniforms (code : Code) : List String := declared (code.takeWhile fun t => !t.isDefinition)

/-- Whether every variable that is read is in force. Only the last function may read uniforms. -/
def WellScoped (lets : Bool) (code : Code) : Prop :=
  (scan lets [] { blocks := [] } code.library).isSome ∧ (scan lets code.uniforms { blocks := [[]] } code.main).isSome

instance (lets : Bool) (code : Code) : Decidable (WellScoped lets code) := inferInstanceAs (Decidable (_ ∧ _))

variable {lets isLet : Bool} {uniforms block new new₁ new₂ : List String} {outer : List (List String)}
  {V W : String → Prop} {code code₁ code₂ : Code} {r : Reader}

theorem scan_cons (r : Reader) (t : Token) (code : Code) :
    scan lets uniforms r (t :: code) = (r.step lets uniforms t).bind fun r => scan lets uniforms r code := by
  simp [scan]

theorem scan_append (r : Reader) (code₁ code₂ : Code) :
    scan lets uniforms r (code₁ ++ code₂) = (scan lets uniforms r code₁).bind fun r => scan lets uniforms r code₂ := by
  simp [scan]

def NoDefinition (code : Code) : Prop := ∀ t ∈ code, t.isDefinition = false

theorem NoDefinition.append (h₁ : NoDefinition code₁) (h₂ : NoDefinition code₂) : NoDefinition (code₁ ++ code₂) := by
  intro t ht
  rcases List.mem_append.mp ht with ht | ht
  · exact h₁ t ht
  · exact h₂ t ht

theorem declared_append (code₁ code₂ : Code) : declared (code₁ ++ code₂) = declared code₁ ++ declared code₂ := by
  simp [declared]

theorem Sees.mono {block' : List String} {x : String} (h : Sees uniforms (block :: outer) x) (hsub : block ⊆ block') :
    Sees uniforms (block' :: outer) x := by
  rcases h with h | ⟨b, hb, hx⟩
  · exact Or.inl h
  · rcases List.mem_cons.mp hb with rfl | hb
    · exact Or.inr ⟨block', List.mem_cons_self, hsub hx⟩
    · exact Or.inr ⟨b, List.mem_cons_of_mem _ hb, hx⟩

/-! ## Flat code -/

def Every (P : Token → Prop) (code : Code) : Prop := ∀ t ∈ code, P t

/-- Code without braces and definitions that reads only the given variables. -/
abbrev Flat (V : String → Prop) (code : Code) : Prop := Every (Token.IsFlat V) code

theorem scan_flat (lets : Bool) (hflat : Flat V code) :
    ∀ block line isLet, (∀ x, V x → Sees uniforms (block :: outer) x) →
      ∃ block' line' isLet', scan lets uniforms ⟨block :: outer, line, isLet⟩ code =
        some ⟨block' :: outer, line', isLet'⟩ ∧
        block ⊆ block' ∧ line ++ code.declared ⊆ line' ++ block' ∧ (isLet = true → isLet' = true) ∧
        (outer ≠ [] → isLet' = isLet) := by
  induction code with
  | nil =>
    intro block line isLet _
    exact ⟨block, line, isLet, rfl, List.Subset.refl _, by simp [declared], id, fun _ => rfl⟩
  | cons t code ih =>
    intro block line isLet hsees
    have hrest : Flat V code := fun t ht => hflat t (List.mem_cons_of_mem _ ht)
    have hhead := hflat t List.mem_cons_self
    rw [scan_cons]
    cases t with
    | reads x =>
      have hx : Sees uniforms (block :: outer) x := hsees x hhead
      simp only [Reader.step, hx, if_true, Option.bind_some]
      exact ih hrest block line isLet hsees
    | declares x =>
      obtain ⟨block', line', isLet', hscan, hblock, hline, hlet⟩ := ih hrest block (x :: line) isLet hsees
      refine ⟨block', line', isLet', hscan, hblock, ?_, hlet⟩
      intro y hy
      apply hline
      simp only [declared, List.filterMap_cons, Token.declared?, List.mem_append, List.mem_cons] at hy ⊢
      grind
    | text s =>
      simp only [Reader.step]
      split
      · -- the end of a line brings its declarations into force
        obtain ⟨block', line', isLet', hscan, hblock, hline, hlet⟩ := ih hrest (line ++ block) [] isLet
          fun x hx => (hsees x hx).mono (List.subset_append_right _ _)
        refine ⟨block', line', isLet', hscan, fun x hx => hblock (List.mem_append_right _ hx), ?_, hlet⟩
        intro y hy
        rcases List.mem_append.mp hy with hy | hy
        · exact List.mem_append_right _ (hblock (List.mem_append_left _ hy))
        · exact hline (List.mem_append_right _ hy)
      · split
        · -- the word `let`, which counts outside of all blocks only
          rename_i hlets
          obtain ⟨block', line', isLet', hscan, hblock, hline, hlet, -⟩ := ih hrest block line true hsees
          refine ⟨block', line', isLet', hscan, hblock, hline, fun _ => hlet rfl, fun houter => ?_⟩
          have : outer = [] := by simpa using hlets.2.2
          exact absurd this houter
        · exact ih hrest block line isLet hsees
    | writes x => exact ih hrest block line isLet hsees
    | calls f => exact ih hrest block line isLet hsees
    | sourceLine f l => exact ih hrest block line isLet hsees
    | opens => exact hhead.elim
    | closes => exact hhead.elim
    | defines f => exact hhead.elim

/-! ## Statements of a body -/

/-- Whole lines inside of a block that read only the given variables or what they have declared, and leave the given
new variables in force. -/
structure Sound (V : String → Prop) (code : Code) (new : List String) : Prop where
  noDefinition : NoDefinition code
  scans : ∀ lets uniforms block outer isLet, outer ≠ [] → (∀ x, V x → Sees uniforms (block :: outer) x) →
    ∃ block', scan lets uniforms ⟨block :: outer, [], isLet⟩ code = some ⟨block' :: outer, [], isLet⟩ ∧
      block ⊆ block' ∧ new ⊆ block'

theorem Sound.mono (h : Sound V code new₁) (hV : ∀ x, V x → W x) (hnew : new₂ ⊆ new₁) : Sound W code new₂ := by
  refine ⟨h.noDefinition, ?_⟩
  intro lets uniforms block outer isLet houter hsees
  obtain ⟨block', hscan, hblock, hin⟩ := h.scans lets uniforms block outer isLet houter fun x hx => hsees x (hV x hx)
  exact ⟨block', hscan, hblock, fun x hx => hin (hnew hx)⟩

theorem Sound.nil : Sound V [] [] :=
  ⟨by simp [NoDefinition], fun _ _ block _ _ _ _ => ⟨block, rfl, List.Subset.refl _, List.nil_subset _⟩⟩

theorem Sound.append (h₁ : Sound V code₁ new₁) (h₂ : Sound (fun x => V x ∨ x ∈ new₁) code₂ new₂) :
    Sound V (code₁ ++ code₂) (new₁ ++ new₂) := by
  refine ⟨h₁.noDefinition.append h₂.noDefinition, ?_⟩
  intro lets uniforms block outer isLet houter hsees
  obtain ⟨block₁, hscan₁, hblock₁, hnew₁⟩ := h₁.scans lets uniforms block outer isLet houter hsees
  have hsees₁ : ∀ x, V x ∨ x ∈ new₁ → Sees uniforms (block₁ :: outer) x := by
    rintro x (hx | hx)
    · exact (hsees x hx).mono hblock₁
    · exact Or.inr ⟨block₁, List.mem_cons_self, hnew₁ hx⟩
  obtain ⟨block₂, hscan₂, hblock₂, hnew₂⟩ := h₂.scans lets uniforms block₁ outer isLet houter hsees₁
  refine ⟨block₂, ?_, fun x hx => hblock₂ (hblock₁ hx), ?_⟩
  · rw [scan_append, hscan₁, Option.bind_some, hscan₂]
  · intro x hx
    rcases List.mem_append.mp hx with hx | hx
    · exact hblock₂ (hnew₁ hx)
    · exact hnew₂ hx

theorem scan_line (lets : Bool) (hflat : Flat V code) (block : List String) (isLet : Bool)
    (hsees : ∀ x, V x → Sees uniforms (block :: outer) x) :
    ∃ block' isLet', scan lets uniforms ⟨block :: outer, [], isLet⟩ (code ++ [.text "\n"])
        = some ⟨block' :: outer, [], isLet'⟩ ∧
      block ⊆ block' ∧ code.declared ⊆ block' ∧ (isLet = true → isLet' = true) ∧ (outer ≠ [] → isLet' = isLet) := by
  obtain ⟨block', line', isLet', hscan, hblock, hline, hlet⟩ := scan_flat lets hflat block [] isLet hsees
  refine ⟨line' ++ block', isLet', ?_, fun x hx => List.mem_append_right _ (hblock hx), ?_, hlet⟩
  · rw [scan_append, hscan]
    rfl
  · simpa using hline

theorem isDefinition_of_isFlat {t : Token} (h : t.IsFlat V) : t.isDefinition = false := by
  cases t <;> simp_all [Token.IsFlat, Token.isDefinition]

theorem Flat.noDefinition (h : Flat V code) : NoDefinition code := fun t ht => isDefinition_of_isFlat (h t ht)

theorem noDefinition_text (s : String) : NoDefinition [.text s] := by simp [NoDefinition, Token.isDefinition]

theorem Sound.line (hflat : Flat V code) : Sound V (code ++ [.text "\n"]) code.declared := by
  refine ⟨hflat.noDefinition.append (noDefinition_text _), ?_⟩
  intro lets uniforms block outer isLet houter hsees
  obtain ⟨block', isLet', hscan, hblock, hnew, -, hlet⟩ := scan_line lets hflat block isLet hsees
  obtain rfl := hlet houter
  exact ⟨block', hscan, hblock, hnew⟩

/-- Code between the lines of two braces. -/
def braced (before behind : String) (code : Code) : Code :=
  .text before :: .opens :: .text "\n" :: (code ++ [.text behind, .closes, .text "\n"])

theorem step_text (lets : Bool) (uniforms block : List String) (outer : List (List String)) (isLet : Bool)
    (s : String) :
    ∃ isLet', Reader.step lets uniforms ⟨block :: outer, [], isLet⟩ (.text s) = some ⟨block :: outer, [], isLet'⟩ ∧
      (isLet = true → isLet' = true) ∧ (outer ≠ [] → isLet' = isLet) := by
  simp only [Reader.step]
  split
  · exact ⟨isLet, rfl, id, fun _ => rfl⟩
  · split
    · rename_i hlets
      exact ⟨true, rfl, fun _ => rfl, fun houter => absurd (by simpa using hlets.2.2) houter⟩
    · exact ⟨isLet, rfl, id, fun _ => rfl⟩

theorem step_closes (lets : Bool) (uniforms body block : List String) (outer : List (List String)) (isLet : Bool) :
    ∃ block', Reader.step lets uniforms ⟨body :: block :: outer, [], isLet⟩ .closes =
      some ⟨block' :: outer, [], isLet⟩ ∧
      block ⊆ block' ∧ (outer ≠ [] → block' = block) ∧ (isLet = true → outer = [] → body ⊆ block') := by
  cases outer with
  | nil =>
    cases isLet with
    | false => exact ⟨block, rfl, List.Subset.refl _, fun _ => rfl, by simp⟩
    | true =>
      exact ⟨body ++ block, rfl, List.subset_append_right _ _, by simp, fun _ _ => List.subset_append_left _ _⟩
  | cons next outer => exact ⟨block, rfl, List.Subset.refl _, fun _ => rfl, by simp⟩

/-- Reading a block gives back what was in force before. A block that is the body of a `let` leaves its own variables in
force as well. -/
theorem scan_braced (lets : Bool) (hbody : Sound V code new) (before behind : String) (block : List String)
    (outer : List (List String)) (isLet : Bool) (hsees : ∀ x, V x → Sees uniforms (block :: outer) x) :
    ∃ block' isLet', scan lets uniforms ⟨block :: outer, [], isLet⟩ (braced before behind code)
        = some ⟨block' :: outer, [], isLet'⟩ ∧
      block ⊆ block' ∧ (outer ≠ [] → block' = block ∧ isLet' = isLet) ∧
      (isLet = true → outer = [] → isLet' = true ∧ new ⊆ block') := by
  obtain ⟨isLet₁, hbefore, hkeep₁, hsame₁⟩ := step_text lets uniforms block outer isLet before
  have hsees' : ∀ x, V x → Sees uniforms ([] :: block :: outer) x := by
    intro x hx
    rcases hsees x hx with h | ⟨b, hb, hin⟩
    · exact Or.inl h
    · exact Or.inr ⟨b, List.mem_cons_of_mem _ hb, hin⟩
  obtain ⟨body, hscan, -, hnew⟩ := hbody.scans lets uniforms [] (block :: outer) isLet₁ (by simp) hsees'
  obtain ⟨isLet₂, hbehind, -, hsame₂⟩ :=
    step_text lets uniforms body (block :: outer) isLet₁ behind
  obtain rfl := hsame₂ (by simp)
  obtain ⟨block', hcloses, hblock, hinner, hlet⟩ :=
    step_closes lets uniforms body block outer isLet₂
  refine ⟨block', isLet₂, ?_, hblock, fun h => ⟨hinner h, hsame₁ h⟩, ?_⟩
  · rw [braced, scan_cons, hbefore, Option.bind_some, scan_cons]
    change scan lets uniforms ⟨[] :: block :: outer, [], isLet₂⟩ (.text "\n" :: _) = _
    rw [scan_cons]
    change scan lets uniforms ⟨[] :: block :: outer, [], isLet₂⟩ _ = _
    rw [scan_append, hscan, Option.bind_some, scan_cons, hbehind, Option.bind_some, scan_cons, hcloses]
    rfl
  · intro hisLet houter
    exact ⟨hkeep₁ hisLet, fun x hx => hlet (hkeep₁ hisLet) houter (hnew hx)⟩

theorem NoDefinition.braced (h : NoDefinition code) (before behind : String) :
    NoDefinition (braced before behind code) := by
  have hbefore : NoDefinition [.text before, .opens, .text "\n"] := by simp [NoDefinition, Token.isDefinition]
  have hbehind : NoDefinition [.text behind, .closes, .text "\n"] := by simp [NoDefinition, Token.isDefinition]
  exact hbefore.append (h.append hbehind)

theorem Sound.braced (hbody : Sound V code new) (before behind : String) : Sound V (braced before behind code) [] := by
  refine ⟨hbody.noDefinition.braced before behind, ?_⟩
  intro lets uniforms block outer isLet houter hsees
  obtain ⟨block', isLet', hscan, hblock, hsame, -⟩ := scan_braced lets hbody before behind block outer isLet hsees
  obtain ⟨rfl, rfl⟩ := hsame houter
  exact ⟨block', hscan, hblock, List.nil_subset _⟩

/-! ## Functions -/

def noVariable : String → Prop := fun _ => False

/-- The parameters and the body of a function, which may read the given uniforms. -/
structure IsFunction (lets : Bool) (uniforms : List String) (code : Code) : Prop where
  noDefinition : NoDefinition code
  scans : ∃ r, scan lets uniforms { blocks := [[]] } code = some r ∧ r.blocks.length ≤ 1

/-- The body of a function whose parameters or uniforms are the given variables. -/
def IsBody (lets : Bool) (V : String → Prop) (code : Code) : Prop :=
  ∀ uniforms header, Flat noVariable header → (∀ x, V x → x ∈ uniforms ∨ x ∈ header.declared) →
    IsFunction lets uniforms ((header ++ [.text "\n"]) ++ code)

theorem isBody_braced {body : Code} (hbody : Sound V body new) (before behind : String) :
    IsBody lets V (braced before behind body) := by
  intro uniforms header hheader hsees
  refine ⟨(Sound.line hheader).noDefinition.append (hbody.noDefinition.braced before behind), ?_⟩
  have hnone : ∀ x, noVariable x → Sees uniforms [[]] x := fun x hx => hx.elim
  obtain ⟨parameters, isLet, hscan, -, hdeclared, -⟩ := scan_line lets hheader [] false hnone
  have hparameters : ∀ x, V x → Sees uniforms [parameters] x :=
    fun x hx => (hsees x hx).imp id fun h => ⟨parameters, List.mem_cons_self, hdeclared h⟩
  obtain ⟨parameters', isLet', hscan', -⟩ := scan_braced lets hbody before behind parameters [] isLet hparameters
  exact ⟨⟨[parameters'], [], isLet'⟩, by rw [scan_append, hscan, Option.bind_some, hscan'], Nat.le_refl 1⟩

theorem isBody_let {body result : Code} (hbody : Sound V body new)
    (hresult : Flat (fun x => V x ∨ x ∈ new) result) (indent before behind : String) :
    IsBody true V ([.text indent, .text letText, .text "\n"] ++
      (braced before behind body ++ (result ++ [.text "\n"]))) := by
  intro uniforms header hheader hsees
  have hlet : NoDefinition [.text indent, .text letText, .text "\n"] := by simp [NoDefinition, Token.isDefinition]
  refine ⟨(Sound.line hheader).noDefinition.append (hlet.append
    ((hbody.noDefinition.braced before behind).append (Sound.line hresult).noDefinition)), ?_⟩
  have hnone : ∀ x, noVariable x → Sees uniforms [[]] x := fun x hx => hx.elim
  obtain ⟨parameters, isLet, hscan, -, hdeclared, -⟩ := scan_line true hheader [] false hnone
  have hparameters : ∀ x, V x → Sees uniforms [parameters] x :=
    fun x hx => (hsees x hx).imp id fun h => ⟨parameters, List.mem_cons_self, hdeclared h⟩
  obtain ⟨isLet₁, hindent, -⟩ := step_text true uniforms parameters [] isLet indent
  obtain ⟨block, isLet₂, hscan₂, hblock, -, hkept⟩ := scan_braced true hbody before behind parameters [] true
    hparameters
  have hall : ∀ x, V x ∨ x ∈ new → Sees uniforms [block] x := by
    rintro x (hx | hx)
    · exact (hparameters x hx).mono hblock
    · exact Or.inr ⟨block, List.mem_cons_self, (hkept rfl rfl).2 hx⟩
  obtain ⟨block', isLet₃, hscan₃, -⟩ := scan_line true hresult block isLet₂ hall
  refine ⟨⟨[block'], [], isLet₃⟩, ?_, Nat.le_refl 1⟩
  rw [scan_append, hscan, Option.bind_some, scan_append, scan_cons, hindent, Option.bind_some]
  change scan true uniforms ⟨[parameters], [], true⟩ _ = _
  rw [scan_append, hscan₂, Option.bind_some, hscan₃]

/-! ## Libraries -/

/-- Whole functions that read no uniforms, and text between them. -/
def Closed (lets : Bool) (code : Code) : Prop :=
  ∀ r : Reader, r.blocks.length ≤ 1 → ∃ r', scan lets [] r code = some r' ∧ r'.blocks.length ≤ 1

theorem Closed.nil : Closed lets [] := fun r hr => ⟨r, rfl, hr⟩

theorem Closed.append (h₁ : Closed lets code₁) (h₂ : Closed lets code₂) : Closed lets (code₁ ++ code₂) := by
  intro r hr
  obtain ⟨r₁, hscan₁, hr₁⟩ := h₁ r hr
  obtain ⟨r₂, hscan₂, hr₂⟩ := h₂ r₁ hr₁
  exact ⟨r₂, by rw [scan_append, hscan₁, Option.bind_some, hscan₂], hr₂⟩

theorem length_endLine (r : Reader) : r.endLine.blocks.length = r.blocks.length := by
  unfold Reader.endLine
  split <;> simp_all

theorem closed_of_flat (hflat : Flat noVariable code) : Closed lets code := by
  induction code with
  | nil => exact Closed.nil
  | cons t code ih =>
    intro r hr
    have hstep : ∃ r', r.step lets [] t = some r' ∧ r'.blocks.length ≤ 1 := by
      have hhead := hflat t List.mem_cons_self
      cases t with
      | reads x => exact hhead.elim
      | opens => exact hhead.elim
      | closes => exact hhead.elim
      | defines f => exact hhead.elim
      | declares x => exact ⟨_, rfl, hr⟩
      | text s =>
        simp only [Reader.step]
        split
        · exact ⟨_, rfl, by rwa [length_endLine]⟩
        · split
          · exact ⟨_, rfl, hr⟩
          · exact ⟨_, rfl, hr⟩
      | writes x => exact ⟨_, rfl, hr⟩
      | calls f => exact ⟨_, rfl, hr⟩
      | sourceLine f l => exact ⟨_, rfl, hr⟩
    obtain ⟨r', hstep, hr'⟩ := hstep
    obtain ⟨r'', hscan, hr''⟩ := ih (fun t ht => hflat t (List.mem_cons_of_mem _ ht)) r' hr'
    exact ⟨r'', by rw [scan_cons, hstep, Option.bind_some, hscan], hr''⟩

theorem Closed.function (h : Closed lets code₁) (f : String) (hfunction : IsFunction lets [] code₂) :
    Closed lets (code₁ ++ .defines f :: code₂) := by
  intro r hr
  obtain ⟨r₁, hscan₁, hr₁⟩ := h r hr
  obtain ⟨r₂, hscan₂, hr₂⟩ := hfunction.scans
  refine ⟨r₂, ?_, hr₂⟩
  rw [scan_append, hscan₁, Option.bind_some, scan_cons, Reader.step, if_pos hr₁, Option.bind_some, hscan₂]

theorem library_append (f : String) (h : NoDefinition code₂) :
    library (code₁ ++ .defines f :: code₂) = code₁ ++ [.defines f] := by
  have hdrop : ∀ t ∈ code₂.reverse, (!t.isDefinition) = true := fun t ht => by simp [h t (List.mem_reverse.mp ht)]
  rw [library, List.reverse_append, List.reverse_cons, List.append_assoc, List.dropWhile_append_of_pos hdrop]
  simp [Token.isDefinition]

theorem main_append (f : String) (h : NoDefinition code₂) :
    main (code₁ ++ .defines f :: code₂) = code₂ := by
  have htake : ∀ t ∈ code₂.reverse, (!t.isDefinition) = true := fun t ht => by simp [h t (List.mem_reverse.mp ht)]
  rw [main, List.reverse_append, List.reverse_cons, List.append_assoc, List.takeWhile_append_of_pos htake]
  simp [Token.isDefinition]

theorem subset_uniforms (h : NoDefinition code₁) : code₁.declared ⊆ (code₁ ++ code₂).uniforms := by
  have htake : ∀ t ∈ code₁, (!t.isDefinition) = true := fun t ht => by simp [h t ht]
  rw [Code.uniforms, List.takeWhile_append_of_pos htake, declared_append]
  exact List.subset_append_left _ _

/-- Code is well scoped when it ends with a function that reads its own parameters and uniforms, and all functions
before read no uniforms. -/
theorem wellScoped_of_function (f : String) (hlibrary : Closed lets code₁)
    (hfunction : IsFunction lets (Code.uniforms (code₁ ++ .defines f :: code₂)) code₂) :
    WellScoped lets (code₁ ++ .defines f :: code₂) := by
  rw [WellScoped, library_append f hfunction.noDefinition, main_append f hfunction.noDefinition]
  obtain ⟨r, hscan, hr⟩ := hlibrary { blocks := [] } (Nat.zero_le 1)
  obtain ⟨r', hscan', -⟩ := hfunction.scans
  refine ⟨?_, by rw [hscan']; rfl⟩
  rw [scan_append, hscan, Option.bind_some, scan_cons, Reader.step, if_pos hr]
  rfl

end Code
end ShadeGraph
