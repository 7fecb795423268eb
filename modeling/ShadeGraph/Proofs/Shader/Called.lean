import ShadeGraph.Proofs.Shader.Functions

/-!
# What the code of a graph calls and defines

The code of nodes defines no function, and the only functions that it calls are those of nodes that an output of the
graph needs. A function defines itself, too.
-/

namespace ShadeGraph

open Code

/-- A token that defines only some functions and calls only some functions. -/
def Token.Mentions (D F : String → Prop) : Token → Prop
  | .calls f => F f
  | .defines f | .sourceLine f _ => D f
  | _ => True

instance (D F : String → Prop) : Token.Neutral (Token.Mentions D F) :=
  ⟨fun _ => trivial, fun _ => trivial, fun _ => trivial⟩

variable {D F : String → Prop}

theorem Token.Mentions.mono {D' F' : String → Prop} (hD : ∀ f, D f → D' f) (hF : ∀ f, F f → F' f) (t : Token)
    (h : t.Mentions D F) : t.Mentions D' F' := by
  cases t with
  | calls f => exact hF f h
  | defines f => exact hD f h
  | sourceLine f line => exact hD f h
  | _ => exact h

namespace Code

variable {code : Code} {V : String → Prop}

theorem Every.mentions (h : Every (Token.InLine V F) code) : Every (Token.Mentions D F) code :=
  h.mono fun t ht => by cases t <;> first | exact ht | trivial

theorem mentions_braced (before behind : String) (h : Every (Token.Mentions D F) code) :
    Every (Token.Mentions D F) (braced before behind code) := by
  have hopens : (Token.opens).Mentions D F := trivial
  have hcloses : (Token.closes).Mentions D F := trivial
  exact ((((h.append (((every_plain "\n").cons hcloses).text behind)).text "\n").cons hopens).text before)

theorem Shaped.mentions {lets : Bool}
    (h : Shaped (Every (Token.Mentions D F)) (Every (Token.Within V F)) lets code) : Every (Token.Mentions D F) code := by
  cases h with
  | block hbody before behind => exact mentions_braced before behind hbody
  | result hbody hresult indent before behind =>
    exact (((every_plain "\n").text letText).text indent).append
      ((mentions_braced before behind hbody).append (hresult.inLine.mentions.append (every_plain "\n")))

theorem HasDefinition.mentions {name : String} {given : List Declaration}
    (h : HasDefinition name given (Every (Token.Mentions D F)) code) (hD : D name) : Every (Token.Mentions D F) code := by
  obtain ⟨indent, start, lines, body, rfl, hlines, hbody⟩ := h
  have hname : (Token.defines name).Mentions D F := hD
  exact (((((hlines.neutral.of_neutral.append (every_plain "\n")).append hbody).cons hname).text start).text indent)

end Code

theorem Emit.tracks_mentions :
    Emit.Tracks F (fun _ => True) fun _ m _ => Emits m fun _ c => Every (Token.Mentions D F) c where
  pure := Emits.pure every_nil
  throw _ := Emits.throw
  seq hm hm' := Emits.bind hm fun _ _ hcode => Emits.mono hm' fun _ _ hcode' => hcode.append hcode'
  lift hf := Emits.lift hf
  line hcode _ := by
    refine Emits.mono (emits_line _) ?_
    rintro _ _ ⟨indent, rfl⟩
    exact (hcode.mentions.text indent).append (every_plain "\n")
  braces hm _ := by
    refine Emits.mono (emits_braces hm) ?_
    rintro _ _ ⟨before, behind, body, rfl, hbody⟩
    exact mentions_braced before behind hbody
  mono _ hm := hm

namespace Surroundings

variable {e : Surroundings}

theorem function?_of_sampled? {i : Input} {type : DataType} {texture : Node} {function : String} {index : Nat}
    (h : e.sampled? i type = some (texture, function, index)) :
    ∃ id, i.sourceNode? = some id ∧ e.graph.node? id = some texture ∧
      texture.implementation.function? = some function := by
  obtain ⟨id, hid, h⟩ := Option.bind_eq_some_iff.mp h
  obtain ⟨m, hm, h⟩ := Option.bind_eq_some_iff.mp h
  obtain ⟨⟨f, k⟩, hsampler, heq⟩ := Option.bind_eq_some_iff.mp h
  obtain ⟨rfl, rfl, rfl⟩ : m = texture ∧ f = function ∧ k = index := by simpa using heq
  refine ⟨id, hid, hm, ?_⟩
  unfold sampler? at hsampler
  split at hsampler
  · rename_i code _ _ himplementation _ _
    dsimp only at hsampler
    split at hsampler
    · rename_i hcondition
      obtain ⟨rfl, -⟩ := Prod.mk.inj (Option.some.inj hsampler)
      simp only [Bool.and_eq_true, Bool.not_eq_true'] at hcondition
      rw [himplementation, Implementation.function?, if_neg (by simp [hcondition.1.1.2])]
    · cases hsampler
  · cases hsampler

end Surroundings

/-- The body of a graph calls only functions of nodes that an output needs. -/
theorem Emit.body_mentions {e : Surroundings} (hg : e.graph.InPlace)
    (hF : ∀ n ∈ e.graph.nodes, e.graph.Feeds n.id → ∀ f, n.implementation.function? = some f → F f) (wrap : Bool) :
    Emits (body e wrap) fun _ c => Every (Token.Mentions D F) c := by
  have hcalls := tracks_mentions (D := D).callAll (U := fun n => n ∈ e.graph.nodes ∧ e.graph.Feeds n.id) (e := e)
    (fun _ _ => trivial) ?_ (fun n hn => hF n hn.1 hn.2) ?_ ?_
  · exact (emits_body_of_callAll tracks_mentions hcalls wrap).mono fun _ c hc => hc.mentions
  · rintro n ⟨-, hfeeds⟩ k m hm
    obtain ⟨hm, hscope⟩ := List.mem_filter.mp hm
    refine ⟨hm, ?_⟩
    unfold Scope.isInBranch at hscope
    split at hscope
    · rename_i c mask full hbranches
      simp only [Bool.and_eq_true, beq_iff_eq] at hscope
      have hinside := hg.scopes.inside m hm c mask full hbranches
      rw [hscope.1] at hinside
      obtain ⟨root, hmem, hroot, hpath⟩ := hfeeds
      exact ⟨root, hmem, hroot, hpath.trans hinside.to_reflTransGen⟩
    · cases hscope
  · rintro n ⟨hn, hfeeds⟩ i hi type texture function index hsampled
    obtain ⟨id, hid, htexture, hfunction⟩ := Surroundings.function?_of_sampled? hsampled
    have hmem := Graph.mem_of_node? htexture
    have hsource : texture.id ∈ n.sources := by
      rw [Graph.id_of_node? htexture]
      exact List.mem_filterMap.mpr ⟨i, hi, hid⟩
    refine hF texture hmem (hfeeds.of_reads ?_) function hfunction
    exact ⟨n, hg.distinct.node?_of_mem hn, hsource, Graph.mem_ids_of_mem hmem⟩
  · intro n hn
    unfold Graph.body at hn
    split at hn
    · rename_i ids hids
      obtain ⟨hn, htop⟩ := List.mem_filter.mp hn
      simp only [Bool.and_eq_true, List.contains_iff_mem, Graph.mem_reachable_iff hids] at htop
      exact ⟨hn, htop.1⟩
    · cases hn

end ShadeGraph
