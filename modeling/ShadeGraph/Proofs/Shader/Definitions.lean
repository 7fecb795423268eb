import ShadeGraph.Proofs.Graph.Frame
import ShadeGraph.Proofs.Shader.Called

/-!
# Definitions of functions

The functions that a graph needs are defined one after another, each one behind the functions that it calls, and no name
twice. That a function counts as defined before the functions inside of it are written does no harm where functions of
the same name are alike: then none of them can be inside of another one.
-/

namespace ShadeGraph

open Code

/-! ## The definition of one function -/

namespace Implementation

/-- The code that defines the function of an implementation. -/
def definition (l : Language) (f : FloatFormat) (indent : Nat) (how : Implementation) : Except Error Code :=
  match Emit.define l f how { indent } with
  | .ok _ s => .ok s.code
  | .error e _ => .error e

/-- The names of the functions that the function of an implementation calls: those of the nodes of its graph that an
output needs. -/
def Calls (how : Implementation) (function : String) : Prop :=
  ∃ name own g, how = .compound name own g ∧
    ∃ n ∈ g.nodes, g.Feeds n.id ∧ n.implementation.function? = some function

/-- Two implementations whose functions are written and called alike. -/
structure Alike (a b : Implementation) : Prop where
  weight : a.weight = b.weight
  definition : ∀ l format indent, a.definition l format indent = b.definition l format indent
  calls : ∀ name, a.Calls name ↔ b.Calls name

end Implementation

namespace Emit

variable {l : Language} {f : FloatFormat} {how : Implementation} {name : String} {s s' : Stage} {a : Unit}

theorem define_mentions (hplaced : ∀ name own g, how = .compound name own g → g.InPlace)
    (hname : how.function? = some name) :
    Emits (define l f how) fun _ c => Every (Token.Mentions (· = name) how.Calls) c := by
  cases how with
  | source code =>
    rw [Implementation.function?] at hname
    split at hname
    · cases hname
    · exact emits_sourceText _ _ fun _ => Option.some.inj hname
  | compound graph own g =>
    have hbody := body_mentions (D := (· = name)) (F := (Implementation.compound graph own g).Calls) (e := ⟨l, f, g⟩)
      (hplaced graph own g rfl) (fun n hn hfeeds f hf => ⟨graph, own, g, rfl, n, hn, hfeeds, hf⟩) false
    refine (emits_define hbody graph own).mono ?_
    rintro _ _ ⟨given, outs, front, rfl, hdefinition, -⟩
    exact (hdefinition.mentions (Option.some.inj hname)).append (every_plain "\n")
  | procedural p =>
    cases p with
    | template t =>
      obtain ⟨category, call, function, body⟩ := t
      obtain rfl : function = some name := hname
      exact emits_sourceText _ _ fun _ => Eq.refl name
    | _ => cases hname

/-- What is written is the definition, whatever stands before it. -/
theorem define_eq (hplaced : ∀ name own g, how = .compound name own g → g.InPlace)
    (hname : how.function? = some name) (hdepth : s.depth = 0) (h : define l f how s = .ok a s') :
    ∃ code, s' = s.append code ∧ how.definition l f s.indent = .ok code ∧
      Every (Token.Mentions (· = name) how.Calls) code := by
  obtain ⟨code, rfl, hcode, hrun⟩ := define_mentions hplaced hname s a s' h
  refine ⟨code, rfl, ?_, hcode⟩
  rw [Implementation.definition, hrun { indent := s.indent } hdepth.symm rfl]
  simp [Stage.append]

/-- Writes the functions that the function of an implementation calls. -/
def defineInner (l : Language) (f : FloatFormat) : Implementation → Emit Unit
  | .compound _ _ graph => defineFunctions l f graph
  | _ => pure ()

theorem mem_addFunction {other : String} :
    other ∈ (s.addFunction name).functions ↔ other = name ∨ other ∈ s.functions := by
  unfold Stage.addFunction Stage.hasFunction
  split
  · rename_i h
    simp only [List.contains_iff_mem] at h
    constructor
    · exact Or.inr
    · rintro (rfl | h')
      · exact h
      · exact h'
  · simp [or_comm]

theorem ifNew_cases {m : Emit Unit} (h : (do if ← isNewFunction name then m) s = .ok a s') :
    (name ∈ s.functions ∧ s' = s) ∨ (name ∉ s.functions ∧ m (s.addFunction name) = .ok a s') := by
  obtain ⟨b, t, hb, h⟩ := state_bind_eq_ok.mp h
  obtain ⟨rfl, rfl⟩ : b = !s.functions.contains name ∧ t = s.addFunction name := by
    cases hb
    exact ⟨rfl, rfl⟩
  by_cases hknown : name ∈ s.functions
  · have hcontains : s.functions.contains name = true := by simpa using hknown
    simp only [hcontains, Bool.not_true, Bool.false_eq_true, if_false] at h
    obtain ⟨-, rfl⟩ := state_pure_eq_ok.mp h
    exact .inl ⟨hknown, by rw [Stage.addFunction, Stage.hasFunction, if_pos hcontains]⟩
  · have hcontains : s.functions.contains name = false := by simpa using hknown
    simp only [hcontains, Bool.not_false, if_true] at h
    exact .inr ⟨hknown, h⟩

/-- A function that is not new is left out; otherwise it counts as defined, the functions inside of it are defined, and
then it is written itself. -/
theorem defineFunction_cases (h : defineFunction l f how s = .ok a s') :
    (s' = s ∧ ∀ name, how.function? = some name → name ∈ s.functions) ∨
    ∃ name t, how.function? = some name ∧ name ∉ s.functions ∧
      defineInner l f how (s.addFunction name) = .ok () t ∧ define l f how t = .ok a s' := by
  cases how with
  | source code =>
    rw [defineFunction] at h
    by_cases hinline : code.isInline = true
    · simp only [hinline, Bool.not_true, Bool.false_eq_true, if_false] at h
      obtain ⟨-, rfl⟩ := state_pure_eq_ok.mp h
      refine .inl ⟨rfl, fun name hname => ?_⟩
      rw [Implementation.function?, if_pos hinline] at hname
      cases hname
    · simp only [hinline, Bool.not_false, if_true] at h
      have hfunction : (Implementation.source code).function? = some code.function := by
        rw [Implementation.function?, if_neg hinline]
      rcases ifNew_cases h with ⟨hknown, rfl⟩ | ⟨hnew, h⟩
      · exact .inl ⟨rfl, fun name hname => Option.some.inj (hfunction.symm.trans hname) ▸ hknown⟩
      · exact .inr ⟨code.function, _, hfunction, hnew, rfl, h⟩
  | compound graph own g =>
    unfold defineFunction at h
    rcases ifNew_cases h with ⟨hknown, rfl⟩ | ⟨hnew, h⟩
    · exact .inl ⟨rfl, fun name hname => Option.some.inj hname ▸ hknown⟩
    · refine .inr ⟨own, ?_⟩
      cases l with
      | mdl =>
        obtain ⟨result, t, hresult, h⟩ := state_bind_eq_ok.mp h
        obtain ⟨hsocket, rfl⟩ := state_lift_eq_ok.mp hresult
        obtain ⟨_, t, hinner, h⟩ := state_bind_eq_ok.mp h
        exact ⟨t, rfl, hnew, hinner,
          state_bind_eq_ok.mpr ⟨result, t, state_lift_eq_ok.mpr ⟨hsocket, rfl⟩, h⟩⟩
      | osl =>
        obtain ⟨_, t, hinner, h⟩ := state_bind_eq_ok.mp h
        exact ⟨t, rfl, hnew, hinner, h⟩
      | glsl =>
        obtain ⟨_, t, hinner, h⟩ := state_bind_eq_ok.mp h
        exact ⟨t, rfl, hnew, hinner, h⟩
  | procedural p =>
    unfold defineFunction at h
    split at h
    · rename_i category call function body
      rcases ifNew_cases h with ⟨hknown, rfl⟩ | ⟨hnew, h⟩
      · exact .inl ⟨rfl, fun name hname => Option.some.inj hname ▸ hknown⟩
      · exact .inr ⟨function, _, rfl, hnew, rfl, h⟩
    · rename_i hother
      obtain ⟨-, rfl⟩ := state_pure_eq_ok.mp h
      refine .inl ⟨rfl, fun name hname => ?_⟩
      cases p with
      | template t =>
        obtain ⟨category, call, function, body⟩ := t
        obtain rfl : function = some name := hname
        exact absurd rfl (hother category call name body)
      | _ => cases hname

end Emit

namespace Emit

variable {l : Language} {f : FloatFormat} {s s' : Stage} {a : Unit} {Q : Code → Prop} {U : Implementation → Prop}

theorem weight_lt_of_mem {g : Graph} {n : Node} (hn : n ∈ g.nodes) : n.implementation.weight < g.weight := by
  rw [Graph.Rewiring.weight_eq]
  generalize g.nodes = nodes at hn
  induction nodes with
  | nil => cases hn
  | cons m nodes ih =>
    rw [Graph.Rewiring.weightOf_cons]
    rcases List.mem_cons.mp hn with rfl | hn
    · omega
    · have := ih hn
      omega

theorem defineFunctionsOf_cons (ids : List NodeId) (n : Node) (nodes : List Node) :
    defineFunctionsOf l f ids (n :: nodes) =
      if ids.contains n.id then do
        defineFunction l f n.implementation
        defineFunctionsOf l f ids nodes
      else defineFunctionsOf l f ids nodes := by
  cases n
  rw [defineFunctionsOf]

theorem defineFunctions_eq (g : Graph) :
    defineFunctions l f g = liftM g.reachable >>= fun ids => defineFunctionsOf l f ids g.nodes := by
  cases g
  rw [defineFunctions]

/-- From one stage to the other, code with some property has been added, and functions count as defined. -/
def Grown (Q : Code → Prop) (s s' : Stage) : Prop :=
  ∃ code functions, s' = { s with code := s.code ++ code, functions } ∧ Q code

section
variable (hnil : Q []) (happend : ∀ {c d}, Q c → Q d → Q (c ++ d))
include hnil happend

theorem grown_defineFunctionsOf (ids : List NodeId) (nodes : List Node)
    (h : ∀ n ∈ nodes, n.id ∈ ids → ∀ s a s', defineFunction l f n.implementation s = .ok a s' → Grown Q s s') :
    ∀ s a s', defineFunctionsOf l f ids nodes s = .ok a s' → Grown Q s s' := by
  induction nodes with
  | nil =>
    intro s a s' hs
    unfold defineFunctionsOf at hs
    obtain ⟨-, rfl⟩ := state_pure_eq_ok.mp hs
    exact ⟨[], s'.functions, by simp, hnil⟩
  | cons n nodes ih =>
    intro s a s' hs
    have ih := ih fun m hm => h m (List.mem_cons_of_mem n hm)
    rw [defineFunctionsOf_cons] at hs
    split at hs
    · rename_i hid
      obtain ⟨_, s₁, hn, hs⟩ := state_bind_eq_ok.mp hs
      obtain ⟨c, _, rfl, hc⟩ := h n List.mem_cons_self (List.contains_iff_mem.mp hid) _ _ _ hn
      obtain ⟨d, functions, rfl, hd⟩ := ih _ _ _ hs
      exact ⟨c ++ d, functions, by simp, happend hc hd⟩
    · exact ih s a s' hs

/-- **The code of all functions of a graph** has what the definition of each of them has. The functions inside of a
compound come before its own; the induction is on the number of nodes. -/
theorem grown_defineFunctions (hinside : ∀ {name own g}, U (.compound name own g) → ∀ n ∈ g.nodes, g.Feeds n.id →
      U n.implementation)
    (htext : ∀ name text, Emits (do block (.sourceLine name) text; emptyLine) fun _ c => Q c)
    (hcompound : ∀ name own g, U (.compound name own g) → Emits (define l f (.compound name own g)) fun _ c => Q c)
    (weight : Nat) : ∀ g : Graph, g.weight = weight → (∀ n ∈ g.nodes, g.Feeds n.id → U n.implementation) →
      ∀ s a s', defineFunctions l f g s = .ok a s' → Grown Q s s' := by
  induction weight using Nat.strong_induction_on with
  | _ weight ih =>
    intro g hweight hg s a s' hs
    rw [defineFunctions_eq] at hs
    obtain ⟨ids, s₁, hlift, hrun⟩ := state_bind_eq_ok.mp hs
    obtain ⟨hids, rfl⟩ := state_lift_eq_ok.mp hlift
    refine grown_defineFunctionsOf hnil happend ids g.nodes (fun n hn hid s a s' hs => ?_) _ _ _ hrun
    have hused := hg n hn ((Graph.mem_reachable_iff hids).mp hid)
    have hlt : n.implementation.weight < weight := hweight ▸ weight_lt_of_mem hn
    rcases defineFunction_cases hs with ⟨rfl, -⟩ | ⟨name, t, -, -, hinner, hdefine⟩
    · exact ⟨[], s'.functions, by simp, hnil⟩
    have hadd : ∃ functions, s.addFunction name = { s with functions } := by
      unfold Stage.addFunction
      split
      · exact ⟨s.functions, rfl⟩
      · exact ⟨_, rfl⟩
    obtain ⟨functions, hadd⟩ := hadd
    rw [hadd] at hinner
    have hinner : Grown Q { s with functions } t := by
      cases hhow : n.implementation with
      | compound graph own g =>
        rw [hhow] at hinner hused hlt
        rw [Implementation.weight] at hlt
        exact ih g.weight hlt g rfl (hinside hused) _ _ _ hinner
      | _ =>
        rw [hhow] at hinner
        obtain ⟨-, rfl⟩ := state_pure_eq_ok.mp hinner
        exact ⟨[], functions, by simp, hnil⟩
    have hown : Emits (define l f n.implementation) fun _ c => Q c := by
      cases hhow : n.implementation with
      | source code => exact htext _ _
      | compound graph own g => exact hcompound graph own g (hhow ▸ hused)
      | procedural p =>
        cases p with
        | template t =>
          obtain ⟨category, call, function, body⟩ := t
          cases function with
          | none => exact Emits.pure hnil
          | some function => exact htext function _
        | _ => exact Emits.pure hnil
    obtain ⟨c, functions', rfl, hc⟩ := hinner
    obtain ⟨d, rfl, hd, -⟩ := hown _ _ _ hdefine
    exact ⟨c ++ d, functions', by simp [Stage.append], happend hc hd⟩

end
end Emit

/-! ## One definition after another -/

structure Definition where
  function : String
  code : Code

def Definition.names (defs : List Definition) : List String := defs.map Definition.function

/-- Definitions of implementations with a property, each one of a new function and behind the functions that it
calls. -/
inductive Arranged (U : Implementation → Prop) (l : Language) (f : FloatFormat) (indent : Nat) : List Definition → Prop
  | nil : Arranged U l f indent []
  | add {defs : List Definition} {how : Implementation} {d : Definition} (before : Arranged U l f indent defs)
      (used : U how) (function : how.function? = some d.function) (new : d.function ∉ Definition.names defs)
      (own : how.definition l f indent = .ok d.code)
      (mentions : Every (Token.Mentions (· = d.function) how.Calls) d.code)
      (calls : ∀ name, how.Calls name → name ∈ Definition.names defs) : Arranged U l f indent (defs ++ [d])

namespace Arranged

variable {U : Implementation → Prop} {l : Language} {f : FloatFormat} {indent : Nat} {defs : List Definition}

theorem mentions (h : Arranged U l f indent defs) :
    Every (Token.Mentions (· ∈ Definition.names defs) (· ∈ Definition.names defs)) (defs.flatMap Definition.code) := by
  induction h with
  | nil => exact every_nil
  | @add defs how d _ _ _ _ _ hmentions hcalls ih =>
    have hsub (name : String) (hname : name ∈ Definition.names defs) : name ∈ Definition.names (defs ++ [d]) := by
      rw [Definition.names, List.map_append]
      exact List.mem_append_left _ hname
    rw [List.flatMap_append, List.flatMap_singleton]
    refine (ih.mono (Token.Mentions.mono hsub hsub)).append (hmentions.mono (Token.Mentions.mono ?_ ?_))
    · rintro name rfl
      simp [Definition.names]
    · exact fun name hname => hsub name (hcalls name hname)

/-- A function that is defined has one definition. What stands before it and the definition itself do not call the
function, and nothing else defines it. -/
theorem split (h : Arranged U l f indent defs) {name : String} (hname : name ∈ Definition.names defs) :
    ∃ before d after how, defs = before ++ d :: after ∧ U how ∧ how.function? = some name ∧
      how.definition l f indent = .ok d.code ∧ (∀ other, how.Calls other → other ∈ Definition.names defs) ∧
      Every (Token.Mentions (· ≠ name) (· ≠ name)) (before.flatMap Definition.code) ∧
      Every (Token.Mentions (· = name) (· ≠ name)) d.code ∧
      Every (Token.Mentions (· ≠ name) fun _ => True) (after.flatMap Definition.code) := by
  induction h with
  | nil => cases hname
  | @add defs how d hbefore hused hfunction hnew hown hmentions hcalls ih =>
    have hsub (other : String) (hother : other ∈ Definition.names defs) : other ∈ Definition.names (defs ++ [d]) := by
      rw [Definition.names, List.map_append]
      exact List.mem_append_left _ hother
    by_cases hearlier : name ∈ Definition.names defs
    · obtain ⟨before, e, after, how', rfl, hused', hfunction', hown', hcalls', hfront, hself, hback⟩ := ih hearlier
      refine ⟨before, e, after ++ [d], how', by simp, hused', hfunction', hown', ?_, hfront, hself, ?_⟩
      · exact fun other hother => hsub other (hcalls' other hother)
      · rw [List.flatMap_append, List.flatMap_singleton]
        refine hback.append (hmentions.mono (Token.Mentions.mono ?_ fun _ _ => trivial))
        rintro _ rfl rfl
        exact hnew hearlier
    · have hlast : name = d.function := by
        simp only [Definition.names, List.map_append, List.mem_append] at hname hearlier
        simpa [hearlier] using hname
      subst hlast
      have hother (other : String) (hmem : other ∈ Definition.names defs) : other ≠ d.function := by
        rintro rfl
        exact hearlier hmem
      refine ⟨defs, d, [], how, rfl, hused, hfunction, hown, ?_, ?_, ?_, every_nil⟩
      · exact fun other hcalled => hsub other (hcalls other hcalled)
      · exact hbefore.mentions.mono (Token.Mentions.mono hother hother)
      · exact hmentions.mono (Token.Mentions.mono (fun _ h => h) fun other h => hother other (hcalls other h))

end Arranged

namespace Emit

variable {U : Implementation → Prop} {l : Language} {f : FloatFormat} {how : Implementation} {s s' : Stage} {a : Unit}

/-- The stage `s` is the stage `base` with some definitions behind it, where the functions `opened` count as defined but
have not been written yet. -/
structure Holds (U : Implementation → Prop) (l : Language) (f : FloatFormat) (base : Stage) (opened : List String)
    (defs : List Definition) (s : Stage) : Prop where
  arranged : Arranged U l f base.indent defs
  stage : ∃ functions, s = { base with code := base.code ++ defs.flatMap Definition.code, functions }
  functions : ∀ name, name ∈ s.functions ↔ name ∈ opened ∨ name ∈ Definition.names defs
  apart : ∀ name ∈ opened, name ∉ Definition.names defs

/-- Implementations that bring those inside of them along, and of which two with the same function are alike. -/
structure Coherent (U : Implementation → Prop) : Prop where
  inside : ∀ {name own g}, U (.compound name own g) → ∀ n ∈ g.nodes, g.Feeds n.id → U n.implementation
  inPlace : ∀ {name own g}, U (.compound name own g) → g.InPlace
  alike : ∀ {a b name}, U a → U b → a.function? = some name → b.function? = some name → a.Alike b

/-- The functions that are open are those of larger implementations. -/
def Above (U : Implementation → Prop) (opened : List String) (weight : Nat) : Prop :=
  ∀ name ∈ opened, ∃ how, U how ∧ how.function? = some name ∧ weight < how.weight

variable {base : Stage} {opened : List String} {defs : List Definition}

/-- What the definition of one function adds: the stage holds more definitions, among them the function. -/
def Defines (U : Implementation → Prop) (l : Language) (f : FloatFormat) (base : Stage) (opened : List String)
    (defs : List Definition) (s' : Stage) (done : String → Prop) : Prop :=
  ∃ more, Holds U l f base opened (defs ++ more) s' ∧ ∀ name, done name → name ∈ Definition.names (defs ++ more)

theorem defines_defineFunctionsOf (ids : List NodeId) (nodes : List Node)
    (hstep : ∀ n ∈ nodes, n.id ∈ ids → ∀ {defs s a s'}, Holds U l f base opened defs s →
      defineFunction l f n.implementation s = .ok a s' →
        Defines U l f base opened defs s' fun name => n.implementation.function? = some name) :
    ∀ {defs s a s'}, Holds U l f base opened defs s → defineFunctionsOf l f ids nodes s = .ok a s' →
      Defines U l f base opened defs s' fun name =>
        ∃ n ∈ nodes, n.id ∈ ids ∧ n.implementation.function? = some name := by
  induction nodes with
  | nil =>
    intro defs s a s' hs h
    unfold defineFunctionsOf at h
    obtain ⟨-, rfl⟩ := state_pure_eq_ok.mp h
    exact ⟨[], by rwa [List.append_nil], by simp⟩
  | cons n nodes ih =>
    intro defs s a s' hs h
    have ih := @ih fun m hm => hstep m (List.mem_cons_of_mem n hm)
    rw [defineFunctionsOf_cons] at h
    by_cases hid : n.id ∈ ids
    · rw [if_pos (by simpa using hid)] at h
      obtain ⟨_, t, hn, h⟩ := state_bind_eq_ok.mp h
      obtain ⟨more, ht, hdone⟩ := hstep n List.mem_cons_self hid hs hn
      obtain ⟨rest, hs', hrest⟩ := ih ht h
      refine ⟨more ++ rest, by rwa [← List.append_assoc], ?_⟩
      rintro name ⟨m, hm, hmid, hname⟩
      rw [← List.append_assoc]
      rcases List.mem_cons.mp hm with rfl | hm
      · have := hdone name hname
        simp only [Definition.names, List.map_append, List.mem_append] at this ⊢
        exact .inl this
      · exact hrest name ⟨m, hm, hmid, hname⟩
    · rw [if_neg (by simpa using hid)] at h
      obtain ⟨rest, hs', hrest⟩ := ih hs h
      refine ⟨rest, hs', ?_⟩
      rintro name ⟨m, hm, hmid, hname⟩
      rcases List.mem_cons.mp hm with rfl | hm
      · exact absurd hmid hid
      · exact hrest name ⟨m, hm, hmid, hname⟩

theorem defines_defineFunctions {g : Graph} (hstep : ∀ n ∈ g.nodes, g.Feeds n.id → ∀ {defs s a s'},
      Holds U l f base opened defs s → defineFunction l f n.implementation s = .ok a s' →
        Defines U l f base opened defs s' fun name => n.implementation.function? = some name)
    (hs : Holds U l f base opened defs s) (h : defineFunctions l f g s = .ok a s') :
    Defines U l f base opened defs s' fun name =>
      ∃ n ∈ g.nodes, g.Feeds n.id ∧ n.implementation.function? = some name := by
  rw [defineFunctions_eq] at h
  obtain ⟨ids, t, hlift, hrun⟩ := state_bind_eq_ok.mp h
  obtain ⟨hids, rfl⟩ := state_lift_eq_ok.mp hlift
  have hfeeds (id : NodeId) : id ∈ ids ↔ g.Feeds id := Graph.mem_reachable_iff hids
  obtain ⟨more, hmore, hdone⟩ := defines_defineFunctionsOf ids g.nodes
    (fun n hn hid => hstep n hn ((hfeeds n.id).mp hid)) hs hrun
  refine ⟨more, hmore, ?_⟩
  rintro name ⟨n, hn, hid, hname⟩
  exact hdone name ⟨n, hn, (hfeeds n.id).mpr hid, hname⟩

/-- **The function of an implementation is defined behind all functions that it calls.** The induction is on the number
of nodes inside of it. A function that is open is never met again, since it would be inside of one of its size. -/
theorem defines_defineFunction (hU : Coherent U) (hbase : base.depth = 0) (weight : Nat) :
    ∀ {how opened defs s a s'}, how.weight = weight → U how → Above U opened weight → Holds U l f base opened defs s →
      defineFunction l f how s = .ok a s' →
        Defines U l f base opened defs s' fun name => how.function? = some name := by
  induction weight using Nat.strong_induction_on with
  | _ weight ih =>
    intro how opened defs s a s' hweight hused habove hs h
    rcases defineFunction_cases h with ⟨rfl, hknown⟩ | ⟨name, t, hname, hnew, hinner, hdefine⟩
    · refine ⟨[], by rwa [List.append_nil], fun name hname => ?_⟩
      rw [List.append_nil]
      rcases (hs.functions name).mp (hknown name hname) with hopen | hdone
      · obtain ⟨other, hother, hfunction, hlt⟩ := habove name hopen
        have := (hU.alike hused hother hname hfunction).weight
        omega
      · exact hdone
    · have hopened : Holds U l f base (name :: opened) defs (s.addFunction name) := by
        obtain ⟨functions, hstage⟩ := hs.stage
        refine ⟨hs.arranged, ?_, fun other => ?_, fun other hother hdone => ?_⟩
        · subst hstage
          unfold Stage.addFunction
          split
          · exact ⟨functions, rfl⟩
          · exact ⟨functions ++ [name], rfl⟩
        · rw [mem_addFunction, hs.functions other, List.mem_cons, or_assoc]
        · rcases List.mem_cons.mp hother with rfl | hother
          · exact hnew ((hs.functions other).mpr (.inr hdone))
          · exact hs.apart other hother hdone
      have hcalled : Defines U l f base (name :: opened) defs t how.Calls := by
        cases how with
        | compound graph own g =>
          have hstep : ∀ n ∈ g.nodes, g.Feeds n.id → ∀ {defs s a s'}, Holds U l f base (name :: opened) defs s →
              defineFunction l f n.implementation s = .ok a s' →
                Defines U l f base (name :: opened) defs s' fun name => n.implementation.function? = some name := by
            intro n hn hfeeds defs s a s' hs h
            have hlt : n.implementation.weight < weight := by
              rw [← hweight, Implementation.weight]
              exact weight_lt_of_mem hn
            refine ih _ hlt rfl (hU.inside hused n hn hfeeds) ?_ hs h
            intro other hother
            rcases List.mem_cons.mp hother with rfl | hother
            · exact ⟨_, hused, hname, by omega⟩
            · obtain ⟨outer, houter, hfunction, hless⟩ := habove other hother
              exact ⟨outer, houter, hfunction, by omega⟩
          obtain ⟨more, hmore, hdone⟩ := defines_defineFunctions hstep hopened hinner
          refine ⟨more, hmore, ?_⟩
          rintro other ⟨_, _, _, heq, n, hn, hfeeds, hfunction⟩
          cases heq
          exact hdone other ⟨n, hn, hfeeds, hfunction⟩
        | source code =>
          obtain ⟨-, rfl⟩ := state_pure_eq_ok.mp hinner
          refine ⟨[], by rwa [List.append_nil], ?_⟩
          rintro other ⟨_, _, _, heq, -⟩
          cases heq
        | procedural p =>
          obtain ⟨-, rfl⟩ := state_pure_eq_ok.mp hinner
          refine ⟨[], by rwa [List.append_nil], ?_⟩
          rintro other ⟨_, _, _, heq, -⟩
          cases heq
      obtain ⟨more, hmore, hcalls⟩ := hcalled
      have hplaced : ∀ graph own g, how = .compound graph own g → g.InPlace := by
        rintro graph own g rfl
        exact hU.inPlace hused
      obtain ⟨functions, hstage⟩ := hmore.stage
      have hdepth : t.depth = 0 := by
        rw [hstage]
        exact hbase
      have hindent : t.indent = base.indent := by rw [hstage]
      obtain ⟨code, rfl, hown, hmentions⟩ := define_eq hplaced hname hdepth hdefine
      have hfresh : name ∉ Definition.names (defs ++ more) := hmore.apart name List.mem_cons_self
      have hnames (other : String) : other ∈ Definition.names (defs ++ (more ++ [⟨name, code⟩])) ↔
          other ∈ Definition.names (defs ++ more) ∨ other = name := by
        simp [Definition.names, or_assoc]
      refine ⟨more ++ [⟨name, code⟩], ⟨?_, ?_, fun other => ?_, fun other hother hdone => ?_⟩, fun other hother => ?_⟩
      · rw [← List.append_assoc]
        exact hmore.arranged.add hused hname hfresh (hindent ▸ hown) hmentions hcalls
      · exact ⟨functions, by simp [hstage, Stage.append]⟩
      · have hiff := hmore.functions other
        rw [List.mem_cons] at hiff
        rw [hnames]
        change other ∈ t.functions ↔ _
        rw [hiff]
        tauto
      · rcases (hnames other).mp hdone with hdone | rfl
        · exact hmore.apart other (List.mem_cons_of_mem _ hother) hdone
        · exact hnew ((hs.functions other).mpr (.inl hother))
      · rw [hnames]
        exact .inr (Option.some.inj (hother.symm.trans hname))

theorem arranged_defineFunctions {g : Graph} (hU : Coherent U)
    (hown : ∀ n ∈ g.nodes, g.Feeds n.id → U n.implementation) (hdepth : s.depth = 0) (hnone : s.functions = [])
    (h : defineFunctions l f g s = .ok a s') :
    ∃ defs functions, Arranged U l f s.indent defs ∧
      s' = { s with code := s.code ++ defs.flatMap Definition.code, functions } ∧
      ∀ n ∈ g.nodes, g.Feeds n.id → ∀ name, n.implementation.function? = some name → name ∈ Definition.names defs := by
  have hstart : Holds U l f s [] [] s :=
    ⟨.nil, ⟨s.functions, by simp⟩, fun name => by simp [hnone, Definition.names], fun _ h => absurd h List.not_mem_nil⟩
  obtain ⟨defs, hdefs, hdone⟩ := defines_defineFunctions (fun n hn hfeeds => defines_defineFunction hU hdepth _ rfl
    (hown n hn hfeeds) fun _ h => absurd h List.not_mem_nil) hstart h
  obtain ⟨functions, hstage⟩ := hdefs.stage
  exact ⟨defs, functions, hdefs.arranged, hstage, fun n hn hfeeds name hname => hdone name ⟨n, hn, hfeeds, hname⟩⟩

end Emit

end ShadeGraph
