import ShadeGraph.Proofs.Number.Text
import ShadeGraph.Ron.Basic
import ShadeGraph.Ron.Lexeme

/-!
# Scanning written text

What the scanner makes of words, numbers and texts as they are written. A word or a number is only finished by the
character behind it, so a scanner that has read one *stands for* the scanner that has found it, as long as a character
follows that ends lexemes. With this every part of a text can be scanned as if nothing were unfinished in front of it.
-/

namespace ShadeGraph.Ron

namespace Scanner

def scan (s : Scanner) (cs : List Char) : Option Scanner := cs.foldlM step s

theorem scan_nil (s : Scanner) : s.scan [] = some s := rfl

theorem scan_cons (s : Scanner) (c : Char) (cs : List Char) : s.scan (c :: cs) = (s.step c).bind fun t => t.scan cs :=
  rfl

theorem scan_append (s : Scanner) (cs ds : List Char) : s.scan (cs ++ ds) = (s.scan cs).bind fun t => t.scan ds :=
  List.foldlM_append

theorem scan_of_step {s t : Scanner} {c : Char} (h : s.step c = some t) (cs : List Char) :
    s.scan (c :: cs) = t.scan cs := by
  rw [scan_cons, h, Option.bind_some]

theorem scan_of_scan {s t : Scanner} {cs : List Char} (h : s.scan cs = some t) (ds : List Char) :
    s.scan (cs ++ ds) = t.scan ds := by
  rw [scan_append, h, Option.bind_some]

abbrev at_ (found : List Lexeme) : Scanner := ⟨found, .between⟩

/-- Whether a scanner reads on like one that has found some lexemes and has nothing unfinished, if the next character is
one of a kind. -/
def StandsFor (s : Scanner) (found : List Lexeme) (next : Char → Prop) : Prop :=
  ∀ c, next c → s.step c = (at_ found).step c

theorem StandsFor.scan {s : Scanner} {found : List Lexeme} {next : Char → Prop} (h : s.StandsFor found next)
    {c : Char} (hc : next c) (cs : List Char) : s.scan (c :: cs) = (at_ found).scan (c :: cs) := by
  rw [scan_cons, scan_cons, h c hc]

/-- The lexemes if the text ends here, the latest first. -/
def result? (s : Scanner) : Option (List Lexeme) := s.mode.finish.map fun last => last.reverse ++ s.found

end Scanner

/-! ## Characters -/

/-- The characters that end words and numbers in written text. -/
def isEnd (c : Char) : Bool := c == ',' || c == ')' || c == ':' || c == '('

/-- Whether a scanner has found some lexemes, apart from a character that ends the last one. -/
structure Scanner.HasFound (s : Scanner) (found : List Lexeme) : Prop where
  next : s.StandsFor found fun c => isEnd c = true
  result : s.result? = some found

theorem Scanner.hasFound_at (found : List Lexeme) : (Scanner.at_ found).HasFound found :=
  ⟨fun _ _ => rfl, rfl⟩

theorem of_ascii {P : Char → Prop} (h : ∀ n < 128, P (Char.ofNat n)) {c : Char} (hc : c.toNat < 128) : P c := by
  have := h c.toNat hc
  rwa [Char.ofNat_toNat] at this

theorem toNat_of_isEnd {c : Char} (h : isEnd c = true) : c.toNat < 128 := by
  simp only [isEnd, Bool.or_eq_true, beq_iff_eq] at h
  rcases h with ((rfl | rfl) | rfl) | rfl <;> decide

theorem Scanner.step_of_after {m : Mode} {c : Char} {l : Lexeme} (h : m.move c = (moveBetween c).after l)
    (found : List Lexeme) : Scanner.step ⟨found, m⟩ c = (at_ (l :: found)).step c := by
  have hbetween : Mode.between.move c = moveBetween c := rfl
  rw [Scanner.step, Scanner.step, h, hbetween, Move.after]
  cases moveBetween c with
  | none => rfl
  | some move => simp

/-! ## Blanks and marks -/

theorem scan_newLine (level : Nat) (found : List Lexeme) :
    (Scanner.at_ found).scan (newLine level) = some (Scanner.at_ found) := by
  have hspaces : ∀ n, (Scanner.at_ found).scan (List.replicate n ' ') = some (Scanner.at_ found) := by
    intro n
    induction n with
    | zero => rfl
    | succ n ih => exact ih
  exact hspaces (4 * level)

theorem step_mark {c : Char} (h : moveBetween c = some ([.mark c], .between)) (found : List Lexeme) :
    (Scanner.at_ found).step c = some (Scanner.at_ (.mark c :: found)) := by
  simp [Scanner.step, Mode.move, h]

theorem standsFor_round (found : List Lexeme) :
    Scanner.StandsFor ⟨found, .round⟩ (.mark '(' :: found) fun c => c ≠ ')' := by
  intro c hc
  exact Scanner.step_of_after (by simp [Mode.move, moveRound, hc]) found

/-! ## Words -/

/-- Whether a text is a word that starts with a character of plain ASCII. -/
def isWord (name : String) : Bool :=
  match name.toList with
  | [] => false
  | c :: cs => c.toNat < 128 && Text.startsIdentifier c && cs.all Text.continuesIdentifier

theorem moveBetween_wordStart {c : Char} (hascii : c.toNat < 128) (h : Text.startsIdentifier c = true) :
    moveBetween c = some ([], .word [c]) := by
  have hall : ∀ n < 128, Text.startsIdentifier (Char.ofNat n) = true →
      moveBetween (Char.ofNat n) = some ([], .word [Char.ofNat n]) := by decide
  exact of_ascii (P := fun c => Text.startsIdentifier c = true → moveBetween c = some ([], .word [c])) hall hascii h

theorem scan_wordChars {cs : List Char} (h : ∀ c ∈ cs, Text.continuesIdentifier c = true) (found : List Lexeme) :
    ∀ read, Scanner.scan ⟨found, .word read⟩ cs = some ⟨found, .word (cs.reverse ++ read)⟩ := by
  induction cs with
  | nil => intro read; rfl
  | cons c cs ih =>
    intro read
    have hc : Scanner.step ⟨found, .word read⟩ c = some ⟨found, .word (c :: read)⟩ := by
      simp [Scanner.step, Mode.move, moveWord, h c List.mem_cons_self]
    rw [Scanner.scan_of_step hc, ih fun d hd => h d (List.mem_cons_of_mem c hd)]
    simp

theorem moveWord_end (read : List Char) {c : Char} (h : isEnd c = true) :
    moveWord read c = (moveBetween c).after (.word (String.ofList read.reverse)) := by
  have hall : ∀ n < 128, isEnd (Char.ofNat n) = true → Text.continuesIdentifier (Char.ofNat n) = false ∧
      Char.ofNat n ≠ '"' ∧ Char.ofNat n ≠ '#' ∧ Char.ofNat n ≠ '\'' := by decide
  obtain ⟨hword, hquote, hhash, hsingle⟩ := of_ascii
    (P := fun c => isEnd c = true → Text.continuesIdentifier c = false ∧ c ≠ '"' ∧ c ≠ '#' ∧ c ≠ '\'') hall
    (toNat_of_isEnd h) h
  simp [moveWord, hword, hquote, hhash, hsingle]

theorem scan_word {name : String} (h : isWord name = true) (found : List Lexeme) :
    ∃ s, (Scanner.at_ found).scan name.toList = some s ∧ s.HasFound (.word name :: found) := by
  rw [isWord] at h
  split at h
  · cases h
  · rename_i c cs hchars
    simp only [Bool.and_eq_true, decide_eq_true_eq, List.all_eq_true] at h
    have hfirst : (Scanner.at_ found).step c = some ⟨found, .word [c]⟩ := by
      simp [Scanner.step, Mode.move, moveBetween_wordStart h.1.1 h.1.2]
    have hname : String.ofList (cs.reverse ++ [c]).reverse = name := by
      rw [List.reverse_append, List.reverse_reverse, List.reverse_singleton, List.singleton_append, ← hchars,
        String.ofList_toList]
    refine ⟨⟨found, .word (cs.reverse ++ [c])⟩, ?_, ?_, ?_⟩
    · rw [hchars, Scanner.scan_of_step hfirst, scan_wordChars h.2]
    · intro d hd
      have := Scanner.step_of_after (m := .word (cs.reverse ++ [c])) (moveWord_end _ hd) found
      rwa [hname] at this
    · simp only [Scanner.result?, Mode.finish, hname]
      rfl

/-! ## Numbers -/

theorem hexDigit?_digitChar : ∀ d < 16, hexDigit? (Nat.digitChar d) = some d := by decide

/-- A value with one more digit in some base, or the same value behind an underscore. -/
def addDigit (base value : Nat) (c : Char) : Option Nat :=
  if c = '_' then some value
  else (hexDigit? c).bind fun digit => if digit < base then some (base * value + digit) else none

theorem digitsValue?_eq_foldlM (base : Nat) {c : Char} (hc : c ≠ '_') (cs : List Char) :
    digitsValue? base (c :: cs) = (c :: cs).foldlM (addDigit base) 0 := by
  rw [digitsValue?, if_neg hc]
  congr 1
  funext value d
  rw [addDigit]
  cases hexDigit? d <;> rfl

theorem addDigit_digitChar (value : Nat) {d : Nat} (hd : d < 10) :
    addDigit 10 value (Nat.digitChar d) = some (10 * value + d) := by
  have hne : Nat.digitChar d ≠ '_' := Nat.digitChar_ne '_' (by decide)
  simp [addDigit, hne, hexDigit?_digitChar d (by omega), hd]

theorem foldlM_addDigit_toDigits (n : Nat) : (Nat.toDigits 10 n).foldlM (addDigit 10) 0 = some n := by
  induction n using Nat.strongRecOn with
  | ind n ih =>
    by_cases hn : n < 10
    · rw [Nat.toDigits_of_lt_base hn]
      simpa using addDigit_digitChar 0 hn
    · have hsplit : 10 * (n / 10) + n % 10 = n := Nat.div_add_mod n 10
      rw [Nat.toDigits_of_base_le (by decide) (by omega), List.foldlM_append, ih (n / 10) (by omega)]
      simpa [hsplit] using addDigit_digitChar (n / 10) (Nat.mod_lt n (by decide))

theorem digitsValue?_toDigits (n : Nat) : digitsValue? 10 (Nat.toDigits 10 n) = some n := by
  obtain ⟨c, cs, hcons⟩ := List.exists_cons_of_ne_nil (Nat.toDigits_ne_nil (n := n) (b := 10))
  have hc : c.isDigit = true := Number.isDigit_of_mem_toDigits (hcons ▸ List.mem_cons_self)
  have hne : c ≠ '_' := fun he => by subst he; cases hc
  rw [hcons, digitsValue?_eq_foldlM 10 hne, ← hcons]
  exact foldlM_addDigit_toDigits n

theorem hexDigit?_isSome_of_isDigit {c : Char} (h : c.isDigit = true) : (hexDigit? c).isSome = true := by
  rw [Char.isDigit_iff_toNat] at h
  have hlow : 48 ≤ c.toNat := h.1
  have hhigh : c.toNat ≤ 57 := h.2
  simp [hexDigit?, hlow, hhigh]

theorem wholeValue?_toDigits (n : Nat) : wholeValue? (Nat.toDigits 10 n) = some n := by
  have hdigits (c d : Char) (cs : List Char) (h : Nat.toDigits 10 n = c :: d :: cs) : d.isDigit = true :=
    Number.isDigit_of_mem_toDigits (h ▸ List.mem_cons_of_mem c List.mem_cons_self)
  rw [wholeValue?.eq_def]
  split
  · rename_i h
    cases hdigits _ _ _ h
  · rename_i h
    cases hdigits _ _ _ h
  · rename_i h
    cases hdigits _ _ _ h
  · exact digitsValue?_toDigits n

theorem numberLexeme?_toDigits {n : Nat} (h : n < 2 ^ 64) : numberLexeme? (Nat.toDigits 10 n) = some (.number n) := by
  have hsign : Number.takeSign (Nat.toDigits 10 n) = (false, Nat.toDigits 10 n) :=
    Number.takeSign_of_isDigit (by simpa using Number.head?_toDigits_isDigit n [])
  have hwhole : (Nat.toDigits 10 n).takeWhile isWholeChar = Nat.toDigits 10 n := by
    refine List.takeWhile_eq_self_iff.mpr fun c hc => ?_
    simp [isWholeChar, hexDigit?_isSome_of_isDigit (Number.isDigit_of_mem_toDigits hc)]
  have hwidth : widths.lookup ([] : List Char) = none := by decide
  have hholds : Width.holds ⟨false, 64⟩ false n = true := by
    simpa [Width.holds] using h
  have hread : readNumber? (Nat.toDigits 10 n) = some (some n) := by
    simp [readNumber?, readWhole?, hsign, hwhole, hwidth, wholeValue?_toDigits, hholds]
  rw [numberLexeme?, hread, Option.map_some]

theorem scan_numberChars {cs : List Char} (h : ∀ c ∈ cs, c.isDigit = true) (found : List Lexeme) :
    ∀ read, Scanner.scan ⟨found, .number read⟩ cs = some ⟨found, .number (cs.reverse ++ read)⟩ := by
  induction cs with
  | nil => intro read; rfl
  | cons c cs ih =>
    intro read
    have hc : Scanner.step ⟨found, .number read⟩ c = some ⟨found, .number (c :: read)⟩ := by
      simp [Scanner.step, Mode.move, moveNumber, continuesNumber, startsNumber, h c List.mem_cons_self]
    rw [Scanner.scan_of_step hc, ih fun d hd => h d (List.mem_cons_of_mem c hd)]
    simp

theorem moveBetween_digit {c : Char} (h : c.isDigit = true) : moveBetween c = some ([], .number [c]) := by
  have hascii : c.toNat < 128 := by
    rw [Char.isDigit_iff_toNat] at h
    have hhigh : c.toNat ≤ 57 := h.2
    omega
  have hall : ∀ n < 128, (Char.ofNat n).isDigit = true →
      moveBetween (Char.ofNat n) = some ([], .number [Char.ofNat n]) := by decide
  exact of_ascii (P := fun c => c.isDigit = true → moveBetween c = some ([], .number [c])) hall hascii h

theorem continuesNumber_of_isEnd {c : Char} (h : isEnd c = true) : continuesNumber c = false := by
  simp only [isEnd, Bool.or_eq_true, beq_iff_eq] at h
  rcases h with ((rfl | rfl) | rfl) | rfl <;> decide

theorem scan_number {n : Nat} (h : n < 2 ^ 64) (found : List Lexeme) :
    ∃ s, (Scanner.at_ found).scan (Nat.toDigits 10 n) = some s ∧ s.HasFound (.number n :: found) := by
  have hlexeme := numberLexeme?_toDigits h
  have hdigits : ∀ c ∈ Nat.toDigits 10 n, c.isDigit = true := fun c => Number.isDigit_of_mem_toDigits
  obtain ⟨c, cs, hchars⟩ := List.exists_cons_of_ne_nil (Nat.toDigits_ne_nil (n := n) (b := 10))
  rw [hchars] at hlexeme hdigits ⊢
  have hfirst : (Scanner.at_ found).step c = some ⟨found, .number [c]⟩ := by
    simp [Scanner.step, Mode.move, moveBetween_digit (hdigits c List.mem_cons_self)]
  have hread : (cs.reverse ++ [c]).reverse = c :: cs := by simp
  refine ⟨⟨found, .number (cs.reverse ++ [c])⟩, ?_, ?_, ?_⟩
  · rw [Scanner.scan_of_step hfirst, scan_numberChars fun d hd => hdigits d (List.mem_cons_of_mem c hd)]
  · intro d hd
    refine Scanner.step_of_after ?_ found
    simp only [Mode.move, moveNumber, continuesNumber_of_isEnd hd, Bool.false_eq_true, if_false, hread, hlexeme]
  · simp only [Scanner.result?, Mode.finish, hread, hlexeme]
    rfl

/-! ## Texts -/

abbrev Scanner.inText (found : List Lexeme) (content : List Part) (escape : Escape) : Scanner :=
  ⟨found, .quoted .text content escape⟩

theorem scan_hexDigits (found : List Lexeme) (content : List Part) (n : Nat)
    (h : (Nat.toDigits 16 n).length ≤ 6) :
    (Scanner.inText found content (.point 0 0)).scan (Nat.toDigits 16 n) =
      some (Scanner.inText found content (.point n (Nat.toDigits 16 n).length)) := by
  have hdigit (value count d : Nat) (hcount : count < 6) (hd : d < 16) :
      (Scanner.inText found content (.point value count)).step (Nat.digitChar d) =
        some (Scanner.inText found content (.point (16 * value + d) (count + 1))) := by
    have hne : Nat.digitChar d ≠ Char.ofNat 0x7d := Nat.digitChar_ne _ (by decide)
    simp [Scanner.step, Mode.move, moveQuoted, hne, hcount, hexDigit?_digitChar d hd]
  induction n using Nat.strongRecOn with
  | ind n ih =>
    by_cases hn : n < 16
    · rw [Nat.toDigits_of_lt_base hn, Scanner.scan_of_step (hdigit 0 0 n (by decide) hn)]
      simp [Scanner.scan_nil]
    · have hsplit : 16 * (n / 16) + n % 16 = n := Nat.div_add_mod n 16
      rw [Nat.toDigits_of_base_le (by decide) (by omega)] at h ⊢
      rw [List.length_append, List.length_singleton] at h ⊢
      rw [Scanner.scan_of_scan (ih (n / 16) (by omega) (by omega)),
        Scanner.scan_of_step (hdigit _ _ _ (by omega) (Nat.mod_lt n (by decide))), hsplit]
      rfl

theorem scan_hexEscape (found : List Lexeme) (content : List Part) (c : Char) :
    (Scanner.inText found content .none).scan
        (['\\', 'u', Char.ofNat 0x7b] ++ Nat.toDigits 16 c.toNat ++ [Char.ofNat 0x7d]) =
      some (Scanner.inText found (.inl c :: content) .none) := by
  have hvalid : c.toNat.isValidChar := c.valid
  have hlength : (Nat.toDigits 16 c.toNat).length ≤ 6 := by
    refine (Nat.length_toDigits_le_iff (by decide) (by decide)).mpr ?_
    unfold Nat.isValidChar at hvalid
    omega
  have hopen : (Scanner.inText found content .none).scan ['\\', 'u', Char.ofNat 0x7b] =
      some (Scanner.inText found content (.point 0 0)) := rfl
  have hclose (count : Nat) (hcount : 0 < count) :
      (Scanner.inText found content (.point c.toNat count)).step (Char.ofNat 0x7d) =
        some (Scanner.inText found (.inl c :: content) .none) := by
    simp [Scanner.step, Mode.move, moveQuoted, hcount, hvalid]
  rw [List.append_assoc, Scanner.scan_of_scan hopen, Scanner.scan_of_scan (scan_hexDigits found content _ hlength),
    Scanner.scan_of_step (hclose _ Nat.length_toDigits_pos)]
  rfl

theorem scan_escapeChar (found : List Lexeme) (content : List Part) (c : Char) :
    (Scanner.inText found content .none).scan (Text.escapeChar c) =
      some (Scanner.inText found (.inl c :: content) .none) := by
  unfold Text.escapeChar
  split
  -- The seven characters that are escaped by a letter are read by computation.
  iterate 7 rfl
  rename_i hquote hbackslash
  split
  · have hplain : (Scanner.inText found content .none).step c =
        some (Scanner.inText found (.inl c :: content) .none) := by
      simp [Scanner.step, Mode.move, moveQuoted, Quoted.isSingle, if_neg hquote, if_neg hbackslash]
    exact Scanner.scan_of_step hplain []
  · exact scan_hexEscape found content c

theorem scan_escapeChars (found : List Lexeme) (cs : List Char) : ∀ content,
    (Scanner.inText found content .none).scan (Text.escapeChars cs) =
      some (Scanner.inText found ((cs.map .inl).reverse ++ content) .none) := by
  induction cs with
  | nil => intro content; rfl
  | cons c cs ih =>
    intro content
    rw [Text.escapeChars, List.flatMap_cons, Scanner.scan_of_scan (scan_escapeChar found content c)]
    have := ih (.inl c :: content)
    rw [Text.escapeChars] at this
    simpa using this

theorem joinParts_map_inl (cs : List Char) : joinParts (cs.map .inl) = some (String.ofList cs) := by
  have hleft : (cs.map (Sum.inl : Char → Part)).mapM Sum.getLeft? = some cs := by
    induction cs with
    | nil => rfl
    | cons c cs ih => simp [List.mapM_cons, ih]
  rw [joinParts, hleft]

theorem scan_text (content : String) (found : List Lexeme) :
    (Scanner.at_ found).scan ('"' :: (Text.escapeChars content.toList ++ ['"'])) =
      some (Scanner.at_ (.text content :: found)) := by
  have hopen : (Scanner.at_ found).step '"' = some (Scanner.inText found [] .none) := rfl
  have hclose : (Scanner.inText found ((content.toList.map .inl).reverse ++ []) .none).step '"' =
      some (Scanner.at_ (.text content :: found)) := by
    simp [Scanner.step, Mode.move, moveQuoted, Quoted.isSingle, endQuoted, Quoted.lexeme?, joinParts_map_inl]
  rw [Scanner.scan_of_step hopen, Scanner.scan_of_scan (scan_escapeChars found content.toList []),
    Scanner.scan_of_step hclose]
  rfl

end ShadeGraph.Ron
