import Mathlib.Data.Real.Basic
import ShadeGraph.Proofs.Code.Layered
import ShadeGraph.Proofs.Number.Shown

/-!
# Chains of tests

A reader for code of the form `if (x < 1.0) { … } else if (x < 2.0) { … } else { … }`. It takes the code apart into
the blocks and what stands in front of each of them, reads the tests with the numbers that they show, and then runs the
chain for a value of `x`: a block is executed if its test holds and the ones before it in the chain do not.
-/

namespace ShadeGraph

open Number

/-! ## Blocks -/

/-- A block of code, and what stands in front of its opening brace. -/
structure Arm where
  head : Code
  block : Code
  deriving DecidableEq, Inhabited

/-- What has been read of code that consists of blocks. -/
structure ArmReader where
  arms : List Arm := []
  head : Code := []
  block : Code := []
  /-- The number of braces that are open. -/
  depth : Nat := 0

namespace ArmReader

/-- Reads a token. The brace that closes the outermost block ends an arm. -/
def step (r : ArmReader) (t : Token) : ArmReader :=
  if r.depth = 0 then if t = .opens then { r with depth := 1 } else { r with head := r.head ++ [t] }
  else if t = .closes ∧ r.depth = 1 then { arms := r.arms ++ [⟨r.head, r.block⟩] }
  else
    { r with
      block := r.block ++ [t]
      depth := if t = .opens then r.depth + 1 else if t = .closes then r.depth - 1 else r.depth }

variable {ok : List Declaration → Prop} {code : Code} {new : List Declaration} {arms : List Arm} {head block : Code}

theorem foldl_head (h : Code.Every Token.IsInert code) :
    ∀ head, code.foldl step ⟨arms, head, [], 0⟩ = ⟨arms, head ++ code, [], 0⟩ := by
  induction code with
  | nil => simp
  | cons t code ih =>
    intro head
    obtain ⟨ht, hcode⟩ := List.forall_mem_cons.mp h
    have hopens : t ≠ .opens := by rintro rfl; exact ht
    rw [List.foldl_cons, step, if_pos rfl, if_neg hopens, ih hcode]
    simp

theorem step_inner {t : Token} (hopens : t ≠ .opens) (hcloses : t ≠ .closes) (depth : Nat) :
    step ⟨arms, head, block, depth + 1⟩ t = ⟨arms, head, block ++ [t], depth + 1⟩ := by
  rw [step, if_neg (by simp), if_neg (by simp [hcloses])]
  simp [hopens, hcloses]

theorem foldl_block (h : Code.Layered ok code new) :
    ∀ block depth, code.foldl step ⟨arms, head, block, depth + 1⟩ = ⟨arms, head, block ++ code, depth + 1⟩ := by
  induction h with
  | nil => simp
  | @inert t code new ht _ ih =>
    intro block depth
    have hopens : t ≠ .opens := by rintro rfl; exact ht
    have hcloses : t ≠ .closes := by rintro rfl; exact ht
    rw [List.foldl_cons, step_inner hopens hcloses, ih]
    simp
  | declares before x behind _ ih =>
    intro block depth
    rw [List.foldl_cons, step_inner (by simp) (by simp), List.foldl_cons, step_inner (by simp) (by simp),
      List.foldl_cons, step_inner (by simp) (by simp), ih]
    simp
  | block _ _ _ ihbody ih =>
    intro block depth
    have hopen : step ⟨arms, head, block, depth + 1⟩ .opens = ⟨arms, head, block ++ [.opens], depth + 1 + 1⟩ := by
      simp [step]
    have hclose (inside : Code) : step ⟨arms, head, inside, depth + 1 + 1⟩ .closes =
        ⟨arms, head, inside ++ [.closes], depth + 1⟩ := by
      simp [step]
    rw [List.foldl_cons, hopen, List.foldl_append, ihbody, List.foldl_cons, hclose, ih]
    simp

theorem foldl_arm {line : Code} (hline : Code.Every Token.IsInert line) (hbody : Code.Layered ok code new)
    (before behind : String) :
    (line ++ Code.braced before behind code).foldl step ⟨arms, head, [], 0⟩ =
      ⟨arms ++ [⟨head ++ line ++ [.text before], .text "\n" :: (code ++ [.text behind])⟩], [.text "\n"], [], 0⟩ := by
  have hblock : Code.Layered ok (.text "\n" :: (code ++ [.text behind])) new :=
    (hbody.andInert (Code.every_plain behind)).text "\n"
  have hsplit : line ++ Code.braced before behind code =
      (line ++ [.text before]) ++ .opens :: ((.text "\n" :: (code ++ [.text behind])) ++ [.closes, .text "\n"]) := by
    simp [Code.braced]
  have hhead : Code.Every Token.IsInert (line ++ [.text before]) := hline.append (Code.every_plain before)
  have hopen (head : Code) : step ⟨arms, head, [], 0⟩ .opens = ⟨arms, head, [], 0 + 1⟩ := rfl
  have hclose (head block : Code) : [Token.closes, .text "\n"].foldl step ⟨arms, head, block, 0 + 1⟩ =
      ⟨arms ++ [⟨head, block⟩], [.text "\n"], [], 0⟩ := rfl
  rw [hsplit, List.foldl_append, foldl_head hhead, List.foldl_cons, hopen,
    List.foldl_append, foldl_block hblock, hclose, List.nil_append, List.append_assoc]

end ArmReader

namespace Code

def arms (code : Code) : List Arm := (code.foldl ArmReader.step {}).arms

end Code

/-! ## Tests -/

def Token.isBlank : Token → Bool
  | .text s => s.toList.all fun c => c == ' ' || c == '\n'
  | _ => false

/-- Code without the white space around it. -/
def Code.strip (code : Code) : Code := ((code.dropWhile Token.isBlank).reverse.dropWhile Token.isBlank).reverse

theorem Code.strip_eq {front core back : Code} (hfront : ∀ t ∈ front, t.isBlank = true)
    (hback : ∀ t ∈ back, t.isBlank = true) (hfirst : ∀ t ∈ core.head?, t.isBlank = false)
    (hlast : ∀ t ∈ core.getLast?, t.isBlank = false) : (front ++ core ++ back).strip = core := by
  have hkeep {code rest : Code} (h : ∀ t ∈ code.head?, t.isBlank = false) (hrest : ∀ t ∈ rest, t.isBlank = true) :
      code = [] ∧ (code ++ rest).dropWhile Token.isBlank = [] ∨
        (code ++ rest).dropWhile Token.isBlank = code ++ rest := by
    cases code with
    | nil => exact .inl ⟨rfl, List.dropWhile_eq_nil_iff.mpr hrest⟩
    | cons t code => exact .inr (List.dropWhile_cons_of_neg (by simp [h t rfl]))
  have hreverse : ∀ t ∈ core.reverse.head?, t.isBlank = false := by simpa using hlast
  rw [strip, List.append_assoc, List.dropWhile_append_of_pos hfront]
  rcases hkeep hfirst hback with ⟨rfl, hnil⟩ | hkept
  · rw [hnil]
    rfl
  · rw [hkept, List.reverse_append, List.dropWhile_append_of_pos fun t ht => hback t (List.mem_reverse.mp ht)]
    rcases hkeep hreverse (by simp : ∀ t ∈ ([] : Code), t.isBlank = true) with ⟨hnil, -⟩ | hkept
    · rw [hnil, List.reverse_eq_nil_iff.mp hnil]
      rfl
    · rw [List.append_nil] at hkept
      rw [hkept, List.reverse_reverse]

/-- What decides whether a block is executed. -/
inductive Guard where
  | always
  /-- `if (x < t)` -/
  | ifLess (t : ℚ)
  /-- `else if (x < t)` -/
  | elseIfLess (t : ℚ)
  /-- `else` -/
  | otherwise

namespace Guard

/-- The number in a text of the form ` < t)`. -/
def readBound? (s : String) : Option ℚ :=
  match s.toList with
  | ' ' :: '<' :: ' ' :: cs => if cs.getLast? = some ')' then readNumber? cs.dropLast else none
  | _ => none

/-- The number with which a test of a value compares. -/
def readTest? (value test : Code) : Option ℚ :=
  if value.isPrefixOf test then
    match test.drop value.length with
    | [.text s] => readBound? s
    | _ => none
  else none

/-- Reads what stands in front of a block as a test of some value. -/
def read? (value head : Code) : Option Guard :=
  match head.strip with
  | [] => some always
  | .text s :: test =>
    if s = "else" ∧ test = [] then some otherwise
    else if s = "if (" then (readTest? value test).map ifLess
    else if s = "else if (" then (readTest? value test).map elseIfLess
    else none
  | _ => none

variable {value head : Code}

theorem read?_always (h : head.strip = []) : read? value head = some always := by simp [read?, h]

theorem read?_otherwise (h : head.strip = [.text "else"]) : read? value head = some otherwise := by simp [read?, h]

theorem readTest?_append {text : String} {q : ℚ} (h : readNumber? text.toList = some q) :
    readTest? value (value ++ [.text (" < " ++ text ++ ")")]) = some q := by
  have hprefix : value.isPrefixOf (value ++ [.text (" < " ++ text ++ ")")]) = true :=
    List.isPrefixOf_iff_prefix.mpr (List.prefix_append _ _)
  have hchars : (" < " ++ text ++ ")").toList = ' ' :: '<' :: ' ' :: (text.toList ++ [')']) := by simp
  simp [readTest?, hprefix, readBound?, hchars, h]

theorem read?_ifLess {text : String} {q : ℚ} (h : readNumber? text.toList = some q)
    (hhead : head.strip = .text "if (" :: (value ++ [.text (" < " ++ text ++ ")")])) :
    read? value head = some (ifLess q) := by
  simp [read?, hhead, readTest?_append h]

theorem read?_elseIfLess {text : String} {q : ℚ} (h : readNumber? text.toList = some q)
    (hhead : head.strip = .text "else if (" :: (value ++ [.text (" < " ++ text ++ ")")])) :
    read? value head = some (elseIfLess q) := by
  simp [read?, hhead, readTest?_append h]

open Classical in
/-- The positions of the blocks that are executed for a number, from a position on; none if an `else` has no `if`. The
first argument says whether a chain is open, and whether one of its blocks has been executed. -/
noncomputable def run (w : ℝ) : Option Bool → Nat → List Guard → Option (List Nat)
  | _, _, [] => some []
  | _, k, always :: rest => (run w none (k + 1) rest).map (k :: ·)
  | _, k, ifLess t :: rest =>
    if w < t then (run w (some true) (k + 1) rest).map (k :: ·) else run w (some false) (k + 1) rest
  | some taken, k, elseIfLess t :: rest =>
    if taken = false ∧ w < t then (run w (some true) (k + 1) rest).map (k :: ·) else run w (some taken) (k + 1) rest
  | some taken, k, otherwise :: rest =>
    if taken = false then (run w none (k + 1) rest).map (k :: ·) else run w none (k + 1) rest
  | none, _, elseIfLess _ :: _ => none
  | none, _, otherwise :: _ => none

/-- The chain with some bounds: a block for each of them, and one more. -/
def chain : List ℚ → List Guard
  | [] => [always]
  | t :: rest => ifLess t :: (rest.map elseIfLess ++ [otherwise])

variable {w : ℝ}

theorem run_taken (ts : List ℚ) : ∀ k, run w (some true) k (ts.map elseIfLess ++ [otherwise]) = some [] := by
  induction ts with
  | nil => simp [run]
  | cons t ts ih => simp [run, ih]

open Classical in
theorem run_open (ts : List ℚ) : ∀ k, run w (some false) k (ts.map elseIfLess ++ [otherwise]) =
    some [k + ts.findIdx fun (t : ℚ) => w < t] := by
  induction ts with
  | nil => simp [run]
  | cons t ts ih =>
    intro k
    by_cases hlt : w < t
    · simp [run, hlt, run_taken, List.findIdx_cons]
    · simp [run, hlt, ih, List.findIdx_cons]
      omega

open Classical in
/-- A chain executes one block: the first one whose bound is not reached, or the last one. -/
theorem run_chain (ts : List ℚ) : run w none 0 (chain ts) = some [ts.findIdx fun (t : ℚ) => w < t] := by
  cases ts with
  | nil => simp [chain, run]
  | cons t ts =>
    by_cases hlt : w < t
    · simp [chain, run, hlt, run_taken, List.findIdx_cons]
    · simp [chain, run, hlt, run_open, List.findIdx_cons]
      omega

end Guard

/-- The positions of the blocks of a chain that are executed where its tests compare a value with that number. -/
noncomputable def Code.executes (code value : Code) (w : ℝ) : Option (List Nat) :=
  (code.arms.mapM fun arm => Guard.read? value arm.head).bind (Guard.run w none 0)

end ShadeGraph
