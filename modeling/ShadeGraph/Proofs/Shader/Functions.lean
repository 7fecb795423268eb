import ShadeGraph.Proofs.Code.Scopes
import ShadeGraph.Proofs.Shader.Call

/-!
# Functions

The function of a graph is written as its name, the declarations of its parameters and a body. The parameters stand in
the first line or on lines of their own. The body is a block; only in MDL, the result of a closure or a material stands
behind the block of a `let`. What is known about the code inside of the block is known about the function.
-/

namespace ShadeGraph

open Code

/-! ## Declarations -/

/-- A token that is plain text or the name of a variable that is written or declared. -/
def Token.IsNeutral : Token → Prop
  | .text _ | .writes _ | .declares _ => True
  | _ => False

instance : Token.Neutral Token.IsNeutral := ⟨fun _ => trivial, fun _ => trivial, fun _ => trivial⟩

namespace Code

variable {code code₁ code₂ : Code} {d : Declaration} {ds ds₁ ds₂ : List Declaration}

theorem Every.of_neutral {P : Token → Prop} [Token.Neutral P] (h : Every Token.IsNeutral code) : Every P code :=
  h.mono fun t ht => by
    cases t with
    | text s => exact Token.Neutral.text s
    | writes x => exact Token.Neutral.writes x
    | declares x => exact Token.Neutral.declares x
    | _ => exact ht.elim

/-- Code without blocks that reads and calls nothing and declares some variables. -/
structure Listed (code : Code) (ds : List Declaration) : Prop where
  neutral : Every Token.IsNeutral code
  layered : Layered (fun _ => False) code ds

namespace Listed

theorem append (h₁ : Listed code₁ ds₁) (h₂ : Listed code₂ ds₂) : Listed (code₁ ++ code₂) (ds₁ ++ ds₂) :=
  ⟨h₁.neutral.append h₂.neutral, h₁.layered.append h₂.layered⟩

theorem text (s : String) (h : Listed code ds) : Listed (.text s :: code) ds := ⟨h.neutral.text s, h.layered.text s⟩

theorem nil : Listed [] [] := ⟨every_nil, .nil⟩

theorem plain (s : String) : Listed (plain s) [] := nil.text s

theorem andPlain (s : String) (h : Listed code ds) : Listed (code ++ [.text s]) ds :=
  List.append_nil ds ▸ h.append (plain s)

end Listed

/-- Code that declares a variable with some length, once something that gives no length follows. -/
structure IsParameter (code : Code) (d : Declaration) : Prop where
  neutral : Every Token.IsNeutral code
  announces : Announces code d

namespace IsParameter

variable {l : Language} {type : DataType} {name : String}

theorem of_declare {length : Option Nat} (h : l.declare type name length = .ok code) : IsParameter code ⟨name, length⟩ :=
  ⟨Language.every_declare h, Language.announces_declare h⟩

theorem of_parameter {value : Option Value} {uniform : Bool} {f : FloatFormat}
    (h : l.parameter type name value uniform f = .ok code) : IsParameter code ⟨name, value.bind Value.arrayLength?⟩ :=
  ⟨Language.every_parameter h, Language.announces_parameter h⟩

theorem of_returningParameter {e : Surroundings} {value : Option Value} {uniform : Bool}
    (h : Emit.returningParameter e type name value uniform = .ok code) :
    IsParameter code ⟨name, value.bind Value.arrayLength?⟩ := by
  obtain ⟨parameter, hparameter, h⟩ := except_bind_eq_ok.mp h
  obtain rfl := Except.ok.inj h
  have hparameter := of_parameter hparameter
  split
  · exact ⟨Language.every_qualified _ hparameter.neutral, hparameter.announces.qualified _⟩
  · exact hparameter

theorem qualified (h : IsParameter code d) (qualifier : String) : IsParameter (Language.qualified qualifier code) d :=
  ⟨Language.every_qualified _ h.neutral, h.announces.qualified _⟩

theorem assign (h : IsParameter code d) (value : String) : IsParameter (code.assign (plain value)) d :=
  ⟨every_assign h.neutral (every_plain _), h.announces.assign (every_plain _)⟩

theorem mapM {α : Type} {f : α → Except Error Code} {declaration : α → Declaration}
    (hf : ∀ a c, f a = .ok c → IsParameter c (declaration a)) {l : List α} {codes : List Code}
    (h : l.mapM f = .ok codes) : List.Forall₂ IsParameter codes (l.map declaration) := by
  rw [List.forall₂_map_right_iff]
  exact (except_mapM_eq_ok_iff.mp h).flip.imp fun c a hc => hf a c hc

theorem neutral_of_mem {codes : List Code} (h : List.Forall₂ IsParameter codes ds) :
    ∀ c ∈ codes, Every Token.IsNeutral c := fun _ hc =>
  have ⟨_, _, hc⟩ := exists_right_of_forall₂ h hc
  hc.neutral

end IsParameter

/-- The definition of a function: its name, its parameters, and a body with some property. -/
def HasDefinition (name : String) (given : List Declaration) (Q : Code → Prop) (code : Code) : Prop :=
  ∃ indent start lines body,
    code = .text indent :: .text start :: .defines name :: ((lines ++ [.text "\n"]) ++ body) ∧ Listed lines given ∧ Q body

/-- A body: a block with some property, or with a result behind it. -/
inductive Shaped (Q R : Code → Prop) : Bool → Code → Prop
  | block {lets : Bool} {body : Code} (h : Q body) (before behind : String) :
      Shaped Q R lets (braced before behind body)
  | result {body result : Code} (h : Q body) (hresult : R result) (indent before behind : String) :
      Shaped Q R true ([.text indent, .text letText, .text "\n"] ++
        (braced before behind body ++ (result ++ [.text "\n"])))

end Code

namespace Emit

variable {code : Code} {ds : List Declaration} {α : Type}

theorem emits_listed (h : Listed code ds) : Emits (line code) fun _ c => Listed c ds := by
  refine Emits.mono (emits_line code) ?_
  rintro _ _ ⟨indent, rfl⟩
  exact (h.text indent).andPlain "\n"

theorem emits_listed_forM {f : α → Emit Unit} {l : List α} {dss : List (List Declaration)}
    (h : List.Forall₂ (fun a ds => Emits (f a) fun _ c => Listed c ds) l dss) :
    Emits (l.forM f) fun _ c => Listed c dss.flatten := by
  induction h with
  | nil => exact Emits.pure .nil
  | cons hd _ ih => exact Emits.bind hd fun _ c hc => Emits.mono ih fun _ c' hc' => hc.append hc'

theorem forall₂_zipIdx {β : Type} {R : α → β → Prop} {l : List α} {l' : List β} (h : List.Forall₂ R l l') :
    ∀ k, List.Forall₂ (fun a b => R a.1 b) (l.zipIdx k) l' := by
  induction h with
  | nil => exact fun _ => .nil
  | cons hab _ ih => exact fun k => .cons hab (ih (k + 1))

section
variable {parameters : List Code} (h : List.Forall₂ IsParameter parameters ds) {rest : Emit Unit} {Q : Code → Prop}
  (hrest : Emits rest fun _ c => Q c)
include h hrest

theorem emits_signature (start name : String) :
    Emits (do line (.text start :: Code.apply (.defines name) parameters); rest) fun _ c =>
      HasDefinition name ds Q c := by
  refine Emits.bind (emits_line _) fun _ c₁ hc₁ => Emits.mono hrest fun _ c₂ hc₂ => ?_
  obtain ⟨indent, rfl⟩ := hc₁
  refine ⟨indent, start, .text "(" :: (commas parameters ++ [.text ")"]), c₂, by simp [Code.apply], ?_, hc₂⟩
  exact ⟨((every_join ", " parameters (IsParameter.neutral_of_mem h)).append (every_plain ")")).text "(",
    (Announces.join (h.imp fun _ _ hp => hp.announces) rfl rfl).text "("⟩

theorem emits_listing (start name : String) :
    Emits (do line [.text start, .defines name]; parameterLines parameters; rest) fun _ c =>
      HasDefinition name ds Q c := by
  have hparameter (p : Code × Nat) (d : Declaration) (hp : IsParameter p.1 d) : Emits
      (line (.text "    " :: (p.1 ++ [.text (if p.2 + 1 = parameters.length then "" else ",")]))) fun _ c =>
        Listed c [d] := by
    have hbehind : readLength? (if p.2 + 1 = parameters.length then "" else ",").toList = none := by split <;> rfl
    exact emits_listed ⟨(hp.neutral.append (every_plain _)).text _, (hp.announces _ _ [] [] hbehind .nil).text _⟩
  have hloop := emits_listed_forM (List.forall₂_map_right_iff.mpr ((forall₂_zipIdx h 0).imp hparameter))
  rw [← List.flatMap_def, List.flatMap_singleton'] at hloop
  unfold parameterLines
  simp only [bind_assoc]
  refine Emits.bind (emits_line _) fun _ c₁ hc₁ => Emits.bind (emits_listed (.plain "(")) fun _ c₂ hc₂ =>
    Emits.bind hloop fun _ c₃ hc₃ =>
    Emits.bind (emits_line _) fun _ c₄ hc₄ => Emits.mono hrest fun _ c₅ hc₅ => ?_
  obtain ⟨indent, rfl⟩ := hc₁
  obtain ⟨indent', rfl⟩ := hc₄
  refine ⟨indent, start, .text "\n" :: (c₂ ++ (c₃ ++ [.text indent', .text ")"])), c₅, by simp, ?_, hc₅⟩
  have hall := (hc₂.append (hc₃.append ((Listed.plain ")").text indent'))).text "\n"
  rwa [List.append_nil, List.nil_append] at hall

end

/-! ## Bodies -/

/-- Whether the language has bodies of the form `= let { … } in e`. -/
def hasLets (l : Language) : Bool := l == .mdl

def body (e : Surroundings) (wrap : Bool) : Emit Unit :=
  match e.language with
  | .mdl => do
    let result ← onlySocket e.language e.graph
    returningBody e result wrap
  | _ => assigningBody e

theorem mem_of_onlySocket {l : Language} {g : Graph} {result : Input} (h : onlySocket l g = .ok result) :
    result ∈ g.outputSockets := by
  unfold onlySocket at h
  split at h
  · rename_i socket heq
    rw [heq, Except.ok.inj h]
    exact List.mem_cons_self
  · simp at h
  · simp at h

theorem every_materialOf {P : Token → Prop} [Token.Textual P] {traits : Traits} {value : Code} (h : Every P value) :
    Every P (materialOf traits value) := by
  unfold materialOf
  split
  · exact h
  · split
    · exact (h.append (every_plain _)).text _
    · split
      · exact (h.append (every_plain _)).text _
      · exact (h.append (every_plain _)).text _

section
variable {F V : String → Prop} {ok : List Declaration → Prop} {Q : (String → Prop) → Code → List Declaration → Prop}
  {e : Surroundings} {new : List Declaration}

/-- The body of a graph has what the code of its nodes has. -/
theorem emits_body (h : Tracks F ok fun V m new => Emits m fun _ c => Q V c new)
    (hcalls : Emits e.callAll fun _ c => Q V c new)
    (hroots : ∀ s ∈ e.graph.outputSockets, ∀ source output, s.source = some source →
      e.graph.output? source = some output → V output.variableName ∨ output.variableName ∈ new.map Declaration.name)
    (wrap : Bool) :
    Emits (body e wrap) fun _ c => Shaped (Q V · new)
      (Every (Token.Within (fun x => V x ∨ x ∈ new.map Declaration.name) F)) (hasLets e.language) c := by
  have hblock {m : Emit Unit} {R : Code → Prop} {lets : Bool} (hm : Emits m fun _ c => Q V c new) :
      Emits (braces m) fun _ c => Shaped (Q V · new) R lets c := by
    refine Emits.mono (emits_braces hm) ?_
    rintro _ _ ⟨before, behind, body, rfl, hbody⟩
    exact .block hbody before behind
  unfold body
  split
  · rename_i hmdl
    refine Emits.lift fun result hresult => ?_
    have hroot := hroots result (mem_of_onlySocket hresult)
    rw [hmdl]
    unfold returningBody
    split
    · refine Emits.bind (emits_line _) fun _ c₁ hc₁ => Emits.bind (emits_braces hcalls) fun _ c₂ hc₂ =>
        Emits.lift fun value hvalue => Emits.mono (emits_line _) fun _ c₃ hc₃ => ?_
      obtain ⟨indent, rfl⟩ := hc₁
      obtain ⟨before, behind, body, rfl, hbody⟩ := hc₂
      obtain ⟨indent', rfl⟩ := hc₃
      refine .result hbody ?_ indent before behind
      refine Every.text indent' ((Every.text "in " ?_).append (every_plain ";"))
      split
      · exact every_materialOf (Surroundings.every_unpublished hroot hvalue)
      · exact Surroundings.every_unpublished hroot hvalue
    · exact hblock (h.returned hcalls hroot)
  · exact hblock (h.assigned hcalls hroots)

theorem emits_body_of_callAll (h : Tracks F ok fun V m new => Emits m fun _ c => Q V c new)
    (hcalls : Emits e.callAll fun _ c => Q (fun _ => True) c e.bodyDeclarations) (wrap : Bool) :
    Emits (body e wrap) fun _ c => Shaped (Q (fun _ => True) · e.bodyDeclarations)
      (Every (Token.Within (fun x => True ∨ x ∈ e.bodyDeclarations.map Declaration.name) F)) (hasLets e.language) c :=
  emits_body h hcalls (fun _ _ _ _ _ _ => Or.inl trivial) wrap

end

/-! ## Definitions -/

/-- Writes the function of an implementation, without the functions that it calls. -/
def define (l : Language) (f : FloatFormat) : Implementation → Emit Unit
  | .source code => do
    block (.sourceLine code.function) code.text
    emptyLine
  | .compound _ function graph =>
    match l with
    | .mdl => do
      let result ← onlySocket l graph
      returningFunction ⟨l, f, graph⟩ function result
    | _ => voidFunction ⟨l, f, graph⟩ function
  | .procedural (.template ⟨_, _, some function, body⟩) => do
    block (.sourceLine function) (body.getD "")
    emptyLine
  | .procedural _ => pure ()

def socketDeclaration (s : Input) : Declaration := ⟨s.variableName, none⟩

theorem isParameter_outputs {l : Language} {outputs : List Code} {sockets : List Input} (qualifier : String)
    (h : sockets.mapM (fun s => l.declare s.type s.variableName none) = .ok outputs) :
    List.Forall₂ IsParameter (outputs.map (Language.qualified qualifier)) (sockets.map socketDeclaration) := by
  rw [List.forall₂_map_left_iff]
  exact (IsParameter.mapM (fun (s : Input) c hc => .of_declare hc) h).imp fun c d hc => hc.qualified qualifier

theorem emits_define {l : Language} {f : FloatFormat} {g : Graph} {Q : Code → Prop}
    (hbody : Emits (body ⟨l, f, g⟩ false) fun _ c => Q c) (name function : String) :
    Emits (define l f (.compound name function g)) fun _ c => ∃ given outs front, c = front ++ [.text "\n"] ∧
      HasDefinition function given Q front ∧
      given.map Declaration.name = g.inputSockets.map Output.variableName ++ outs ∧
      outs.Sublist (g.outputSockets.map Input.variableName) := by
  have hend {m : Emit Unit} (hm : Emits m fun _ c => Q c) :
      Emits (do m; emptyLine) fun _ c => ∃ body, c = body ++ [.text "\n"] ∧ Q body :=
    Emits.bind hm fun _ body hbody => Emits.mono emits_emptyLine fun _ c hc => ⟨body, by rw [hc], hbody⟩
  have hfront {given : List Declaration} {code : Code}
      (h : HasDefinition function given (fun c => ∃ body, c = body ++ [.text "\n"] ∧ Q body) code) :
      ∃ front, code = front ++ [.text "\n"] ∧ HasDefinition function given Q front := by
    obtain ⟨indent, start, lines, _, rfl, hlines, body, rfl, hbody⟩ := h
    exact ⟨_, by simp, indent, start, lines, body, rfl, hlines, hbody⟩
  have hvoid (hl : l ≠ .mdl) : Emits (voidFunction ⟨l, f, g⟩ function) fun _ c => ∃ given outs front,
      c = front ++ [.text "\n"] ∧ HasDefinition function given Q front ∧
      given.map Declaration.name = g.inputSockets.map Output.variableName ++ outs ∧
      outs.Sublist (g.outputSockets.map Input.variableName) := by
    refine Emits.lift fun inputs hinputs => Emits.lift fun outputs houtputs => ?_
    have hparameters := List.rel_append (IsParameter.mapM (fun (s : Output) c hc => .of_declare hc) hinputs)
      (isParameter_outputs (Surroundings.dialect ⟨l, f, g⟩).outputQualifier houtputs)
    have hassigning : body ⟨l, f, g⟩ false = assigningBody ⟨l, f, g⟩ := by cases l <;> first | rfl | exact absurd rfl hl
    refine Emits.mono (emits_signature hparameters (hend (hassigning ▸ hbody)) "void " function) fun _ c hc => ?_
    obtain ⟨front, rfl, hdefinition⟩ := hfront hc
    refine ⟨_, g.outputSockets.map Input.variableName, front, rfl, hdefinition, ?_, .refl _⟩
    simp [Function.comp_def, socketDeclaration]
  cases l with
  | osl => exact hvoid (by simp)
  | glsl => exact hvoid (by simp)
  | mdl =>
    refine Emits.lift fun result hresult => Emits.lift fun parameters hparameters => Emits.lift fun typeName _ => ?_
    have hparameters := IsParameter.mapM (fun (s : Output) c hc => .of_returningParameter hc) hparameters
    have hreturning : body ⟨.mdl, f, g⟩ false = returningBody ⟨.mdl, f, g⟩ result false := by
      simp only [body, hresult]
      rfl
    refine Emits.mono (emits_listing hparameters (hend (hreturning ▸ hbody)) _ function) fun _ c hc => ?_
    obtain ⟨front, rfl, hdefinition⟩ := hfront hc
    exact ⟨_, [], front, rfl, hdefinition, by simp [Function.comp_def], List.nil_sublist _⟩

theorem emits_sourceText {P : Token → Prop} [Token.Textual P] (name text : String) (h : ∀ l, P (.sourceLine name l)) :
    Emits (do block (.sourceLine name) text; emptyLine) fun _ c => Every P c := by
  refine Emits.bind (emits_block h text) fun _ c₁ hc₁ => Emits.mono emits_emptyLine fun _ c₂ hc₂ => ?_
  exact hc₂ ▸ hc₁.append (every_plain "\n")

end Emit
end ShadeGraph
