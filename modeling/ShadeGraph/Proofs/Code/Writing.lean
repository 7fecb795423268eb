import ShadeGraph.Proofs.Code.WellScoped
import ShadeGraph.Proofs.Dialect.Swizzle
import ShadeGraph.Stage

/-!
# Writing to a stage

What is done to a stage while it is written, as a list of actions. No action takes anything away. In a *balanced* list
each action that closes a block belongs to the one that opened it; such a list ends at the depth where it starts, never
goes below it, and appends code with nested blocks.
-/

namespace ShadeGraph

open Code

def Token.IsPlain : Token → Prop
  | .opens | .closes => False
  | _ => True

/-- Code in which every block is closed behind where it was opened. -/
inductive Code.Nested : Code → Prop
  | nil : Nested []
  | token {t : Token} {code : Code} (ht : t.IsPlain) (h : Nested code) : Nested (t :: code)
  | block {body code : Code} (hbody : Nested body) (h : Nested code) : Nested (.opens :: (body ++ .closes :: code))

theorem Code.Nested.append {code code' : Code} (h : Nested code) (h' : Nested code') : Nested (code ++ code') := by
  induction h with
  | nil => exact h'
  | token ht _ ih => exact .token ht ih
  | @block body code hbody _ _ ih =>
    rw [List.cons_append, List.append_assoc, List.cons_append]
    exact .block hbody ih

theorem Code.Nested.of_every {code : Code} (h : Every Token.IsPlain code) : Nested code := by
  induction code with
  | nil => exact .nil
  | cons t code ih =>
    obtain ⟨ht, hcode⟩ := List.forall_mem_cons.mp h
    exact .token ht (ih hcode)

/-! ## Actions -/

/-- What is done to a stage while it is written. -/
inductive Action where
  | line (code : Code)
  | emptyLine
  | opens
  | closes (semicolon : Bool)
  | function (name : String)
  | ensure (block : String)
  | uniform (block : String) (u : Uniform)
  | identifier (name : String)

def Action.apply : Action → Stage → Stage
  | .line code, s => s.line code
  | .emptyLine, s => s.emptyLine
  | .opens, s => s.openBlock
  | .closes semicolon, s => s.closeBlock semicolon
  | .function name, s => s.addFunction name
  | .ensure block, s => s.ensureBlock block
  | .uniform block u, s => s.addUniform block u
  | .identifier name, s => { s with identifiers := name :: s.identifiers }

/-- An action that has nothing to do with blocks. -/
def Action.IsFlat : Action → Prop
  | .line code => Every Token.IsPlain code
  | .opens | .closes _ => False
  | _ => True

def Stage.run (s : Stage) (actions : List Action) : Stage := actions.foldl (fun s a => a.apply s) s

theorem Stage.run_append (s : Stage) (actions rest : List Action) : s.run (actions ++ rest) = (s.run actions).run rest :=
  List.foldl_append

/-- Actions that close the blocks that they open, and no others. -/
inductive Balanced : List Action → Prop
  | nil : Balanced []
  | flat {a : Action} {actions : List Action} (ha : a.IsFlat) (h : Balanced actions) : Balanced (a :: actions)
  | block {body actions : List Action} {semicolon : Bool} (hbody : Balanced body) (h : Balanced actions) :
    Balanced (.opens :: (body ++ .closes semicolon :: actions))

theorem Balanced.append {actions rest : List Action} (h : Balanced actions) (h' : Balanced rest) :
    Balanced (actions ++ rest) := by
  induction h with
  | nil => exact h'
  | flat ha _ ih => exact .flat ha ih
  | block hbody _ _ ih =>
    rw [List.cons_append, List.append_assoc, List.cons_append]
    exact .block hbody ih

theorem Balanced.of_flat {actions : List Action} (h : ∀ a ∈ actions, a.IsFlat) : Balanced actions := by
  induction actions with
  | nil => exact .nil
  | cons a actions ih =>
    obtain ⟨ha, hrest⟩ := List.forall_mem_cons.mp h
    exact .flat ha (ih hrest)

/-! ## Nothing is taken away -/

/-- A block that has more variables. -/
structure UniformBlock.Extends (b b' : UniformBlock) : Prop where
  name : b'.name = b.name
  uniforms : b.uniforms <+: b'.uniforms

/-- A stage with more text, more functions, and more variables or blocks of them. -/
structure Stage.Extends (s s' : Stage) : Prop where
  text : ∃ added, s'.text = s.text ++ added
  functions : s.functions <+: s'.functions
  /-- Each block keeps its position. -/
  blocks : ∀ (k : Nat) (b : UniformBlock), s.blocks[k]? = some b → ∃ b', s'.blocks[k]? = some b' ∧ b.Extends b'

theorem UniformBlock.Extends.refl (b : UniformBlock) : b.Extends b := ⟨rfl, List.prefix_rfl⟩

theorem UniformBlock.Extends.trans {b b' b'' : UniformBlock} (h : b.Extends b') (h' : b'.Extends b'') : b.Extends b'' :=
  ⟨h'.name.trans h.name, h.uniforms.trans h'.uniforms⟩

theorem UniformBlock.extends_add (b : UniformBlock) (u : Uniform) : b.Extends (b.add u) := by
  unfold add
  split
  · exact ⟨rfl, List.prefix_append _ _⟩
  · exact .refl b

namespace Stage

variable {s s' s'' : Stage}

theorem Extends.of_blocks_eq (htext : ∃ added, s'.text = s.text ++ added) (hfunctions : s.functions <+: s'.functions)
    (hblocks : s'.blocks = s.blocks) : s.Extends s' :=
  ⟨htext, hfunctions, fun _ b hb => ⟨b, hblocks ▸ hb, .refl b⟩⟩

theorem Extends.refl (s : Stage) : s.Extends s := .of_blocks_eq ⟨"", by simp⟩ List.prefix_rfl rfl

theorem Extends.trans (h : s.Extends s') (h' : s'.Extends s'') : s.Extends s'' where
  text := by
    obtain ⟨added, hadded⟩ := h.text
    obtain ⟨added', hadded'⟩ := h'.text
    exact ⟨added ++ added', by rw [hadded', hadded, String.append_assoc]⟩
  functions := h.functions.trans h'.functions
  blocks := by
    intro k b hb
    obtain ⟨b', hb', hextends⟩ := h.blocks k b hb
    obtain ⟨b'', hb'', hextends'⟩ := h'.blocks k b' hb'
    exact ⟨b'', hb'', hextends.trans hextends'⟩

theorem extends_of_code {code : Code} (hcode : s'.code = s.code ++ code) (hfunctions : s'.functions = s.functions)
    (hblocks : s'.blocks = s.blocks) : s.Extends s' := by
  refine .of_blocks_eq ⟨code.render, ?_⟩ (hfunctions ▸ List.prefix_rfl) hblocks
  rw [text, hcode, Code.render_append]
  rfl

theorem extends_ensureBlock (s : Stage) (name : String) : s.Extends (s.ensureBlock name) := by
  unfold ensureBlock
  split
  · exact .refl s
  · refine ⟨⟨"", by simp [text]⟩, List.prefix_rfl, fun k b hb => ⟨b, ?_, .refl b⟩⟩
    exact (List.getElem?_append_left (List.getElem?_eq_some_iff.mp hb).1).trans hb

theorem extends_addUniform (s : Stage) (name : String) (u : Uniform) : s.Extends (s.addUniform name u) := by
  refine (extends_ensureBlock s name).trans ⟨⟨"", by simp [text, addUniform]⟩, List.prefix_rfl, fun k b hb => ?_⟩
  refine ⟨_, by rw [addUniform, List.getElem?_map, hb, Option.map_some], ?_⟩
  split
  · exact b.extends_add u
  · exact .refl b

end Stage

theorem Action.extends_apply (a : Action) (s : Stage) : s.Extends (a.apply s) := by
  cases a with
  | line code => exact Stage.extends_of_code rfl rfl rfl
  | emptyLine => exact Stage.extends_of_code rfl rfl rfl
  | opens => exact Stage.extends_of_code rfl rfl rfl
  | closes semicolon => exact Stage.extends_of_code rfl rfl rfl
  | function name =>
    rw [apply, Stage.addFunction]
    split
    · exact .refl s
    · exact .of_blocks_eq ⟨"", by simp [Stage.text]⟩ (List.prefix_append _ _) rfl
  | ensure block => exact s.extends_ensureBlock block
  | uniform block u => exact s.extends_addUniform block u
  | identifier name => exact .of_blocks_eq ⟨"", by simp [Stage.text, apply]⟩ List.prefix_rfl rfl

theorem Stage.extends_run (s : Stage) (actions : List Action) : s.Extends (s.run actions) := by
  induction actions generalizing s with
  | nil => exact .refl s
  | cons a actions ih => exact (a.extends_apply s).trans (ih (a.apply s))

/-! ## Depth -/

theorem Action.IsFlat.depth {a : Action} (h : a.IsFlat) (s : Stage) : (a.apply s).depth = s.depth := by
  cases a with
  | opens => exact h.elim
  | closes semicolon => exact h.elim
  | function name =>
    rw [apply, Stage.addFunction]
    split <;> rfl
  | ensure block =>
    rw [apply, Stage.ensureBlock]
    split <;> rfl
  | uniform block u =>
    change (s.ensureBlock block).depth = s.depth
    rw [Stage.ensureBlock]
    split <;> rfl
  | line code => rfl
  | emptyLine => rfl
  | identifier name => rfl

namespace Balanced

variable {actions body front : List Action}

theorem depth_run (h : Balanced actions) (s : Stage) : (s.run actions).depth = s.depth := by
  induction h generalizing s with
  | nil => rfl
  | @flat a actions ha _ ih => exact (ih (a.apply s)).trans (ha.depth s)
  | @block body actions semicolon _ _ ihbody ih =>
    change (s.openBlock.run (body ++ .closes semicolon :: actions)).depth = s.depth
    rw [Stage.run_append]
    refine (ih _).trans ?_
    change (s.openBlock.run body).depth - 1 = s.depth
    rw [ihbody]
    rfl

/-- On the way, balanced actions do not go below the depth where they start. -/
theorem le_depth_run (h : Balanced actions) (s : Stage) (hfront : front <+: actions) :
    s.depth ≤ (s.run front).depth := by
  induction h generalizing s front with
  | nil =>
    obtain rfl := List.prefix_nil.mp hfront
    exact Nat.le_refl _
  | @flat a actions ha _ ih =>
    cases front with
    | nil => exact Nat.le_refl _
    | cons b front =>
      obtain ⟨rfl, hrest⟩ := List.cons_prefix_cons.mp hfront
      exact Nat.le_trans (Nat.le_of_eq (ha.depth s).symm) (ih (b.apply s) hrest)
  | @block body actions semicolon hbody _ ihbody ih =>
    cases front with
    | nil => exact Nat.le_refl _
    | cons b front =>
      obtain ⟨rfl, tail, htail⟩ := List.cons_prefix_cons.mp hfront
      change s.depth ≤ (s.openBlock.run front).depth
      -- The way ends inside of the block, or behind it.
      rcases List.append_eq_append_iff.mp htail with ⟨rest, rfl, -⟩ | ⟨behind, rfl, hbehind⟩
      · exact Nat.le_trans (Nat.le_succ _) (ihbody s.openBlock (List.prefix_append front rest))
      · cases behind with
        | nil =>
          rw [List.append_nil, hbody.depth_run]
          exact Nat.le_succ _
        | cons c behind =>
          obtain ⟨rfl, rfl⟩ := List.cons.inj hbehind
          rw [Stage.run_append]
          refine Nat.le_trans ?_ (ih ((s.openBlock.run body).closeBlock semicolon) (List.prefix_append behind tail))
          change s.depth ≤ (s.openBlock.run body).depth - 1
          rw [hbody.depth_run]
          exact Nat.le_refl _

end Balanced

/-! ## Code -/

theorem Action.IsFlat.code {a : Action} (h : a.IsFlat) (s : Stage) :
    ∃ added, (a.apply s).code = s.code ++ added ∧ Every Token.IsPlain added := by
  cases a with
  | opens => exact h.elim
  | closes semicolon => exact h.elim
  | line code =>
    refine ⟨_, rfl, List.forall_mem_cons.mpr ⟨trivial, List.forall_mem_append.mpr ⟨h, ?_⟩⟩⟩
    simp [Token.IsPlain]
  | emptyLine => exact ⟨_, rfl, by simp [Every, Token.IsPlain]⟩
  | function name =>
    refine ⟨[], ?_, by simp [Every]⟩
    rw [apply, Stage.addFunction]
    split <;> simp
  | ensure block =>
    refine ⟨[], ?_, by simp [Every]⟩
    rw [apply, Stage.ensureBlock]
    split <;> simp
  | uniform block u =>
    refine ⟨[], ?_, by simp [Every]⟩
    change (s.ensureBlock block).code = _
    rw [Stage.ensureBlock]
    split <;> simp
  | identifier name => exact ⟨[], by simp [apply], by simp [Every]⟩

theorem Balanced.nested_run {actions : List Action} (h : Balanced actions) (s : Stage) :
    ∃ added, (s.run actions).code = s.code ++ added ∧ added.Nested := by
  induction h generalizing s with
  | nil => exact ⟨[], by simp [Stage.run], .nil⟩
  | @flat a actions ha _ ih =>
    obtain ⟨first, hfirst, hplain⟩ := ha.code s
    obtain ⟨rest, hrest, hnested⟩ := ih (a.apply s)
    refine ⟨first ++ rest, ?_, (Nested.of_every hplain).append hnested⟩
    rw [← List.append_assoc, ← hfirst]
    exact hrest
  | @block body actions semicolon _ _ ihbody ih =>
    obtain ⟨inside, hinside, hnested⟩ := ihbody s.openBlock
    obtain ⟨rest, hrest, hnested'⟩ := ih ((s.openBlock.run body).closeBlock semicolon)
    obtain ⟨before, hopen⟩ : ∃ before, s.openBlock.code = s.code ++ [.text before, .opens, .text "\n"] := ⟨_, rfl⟩
    obtain ⟨behind, ends, hends, hclose⟩ : ∃ behind ends, Every Token.IsPlain ends ∧
        ((s.openBlock.run body).closeBlock semicolon).code =
          (s.openBlock.run body).code ++ .text behind :: .closes :: ends := by
      cases semicolon with
      | false => exact ⟨_, [.text "\n"], by simp [Every, Token.IsPlain], rfl⟩
      | true => exact ⟨_, [.text ";", .text "\n"], by simp [Every, Token.IsPlain], rfl⟩
    have hbody : Nested (.text "\n" :: (inside ++ [.text behind])) :=
      .token trivial (hnested.append (.token trivial .nil))
    refine ⟨.text before :: .opens :: (.text "\n" :: (inside ++ [.text behind]) ++ .closes :: (ends ++ rest)), ?_,
      .token trivial (.block hbody ((Nested.of_every hends).append hnested'))⟩
    change (s.openBlock.run (body ++ .closes semicolon :: actions)).code = _
    rw [Stage.run_append]
    refine hrest.trans ?_
    rw [hclose, hinside, hopen]
    simp

end ShadeGraph
