import ShadeGraph.Proofs.Ron.Lexeme
import ShadeGraph.Ron.Reading

/-!
# Reading written trees

A plain tree, which has only numbers of 64 bits and names that the notation can express, reads back from its text. The
text is scanned into the lexemes of the tree, and the builder makes the tree of these lexemes whatever stands around it.
-/

namespace ShadeGraph.Ron

/-- A name that is a word without a meaning of its own. -/
structure IsName (name : String) : Prop where
  word : isWord name = true
  meaning : wordValue? name = some (.word name)

mutual

/-- Whether a value can be written and read back. -/
def Plain : Ron → Prop
  | text _ | truth _ | absent | unit => True
  | number value => value < 2 ^ 64
  | present value => value.Plain
  | word name => IsName name
  | other _ => False
  | list items => PlainItems items
  | record name fields => (name = "" ∨ IsName name) ∧ PlainFields fields

def PlainItems : List Ron → Prop
  | [] => True
  | item :: items => item.Plain ∧ PlainItems items

def PlainFields : List Field → Prop
  | [] => True
  | .mk name value :: fields => isWord name = true ∧ value.Plain ∧ PlainFields fields

end

def nameLexemes (name : String) : List Lexeme := if name = "" then [] else [.word name]

mutual

def lexemes : Ron → List Lexeme
  | text content => [.text content]
  | number value => [.number value]
  | truth true => [.word "true"]
  | truth false => [.word "false"]
  | absent => [.word "None"]
  | present value => .word "Some" :: .mark '(' :: (lexemes value ++ [.mark ')'])
  | word name => [.word name]
  | unit => [.unit]
  | other _ => []
  | list items => .mark '[' :: (itemLexemes items ++ [.mark ']'])
  | record name fields => nameLexemes name ++ .mark '(' :: (fieldLexemes fields ++ [.mark ')'])

/-- The lexemes of items, each with a comma behind it. -/
def itemLexemes : List Ron → List Lexeme
  | [] => []
  | item :: items => lexemes item ++ .mark ',' :: itemLexemes items

/-- The lexemes of fields, each with a comma behind it. -/
def fieldLexemes : List Field → List Lexeme
  | [] => []
  | .mk name value :: fields => .word name :: .mark ':' :: (lexemes value ++ .mark ',' :: fieldLexemes fields)

end

/-! ## Scanning -/

open Scanner

theorem HasFound.scan {s : Scanner} {found : List Lexeme} (h : s.HasFound found) {c : Char} (hc : isEnd c = true)
    (cs : List Char) : s.scan (c :: cs) = (at_ found).scan (c :: cs) :=
  h.next.scan hc cs

theorem head_of_isWord {name : String} (h : isWord name = true) : ∃ c cs, name.toList = c :: cs ∧ c ≠ ')' := by
  rw [isWord] at h
  split at h
  · cases h
  · rename_i c cs hchars
    refine ⟨c, cs, hchars, ?_⟩
    rintro rfl
    simp only [Bool.and_eq_true] at h
    exact absurd h.1.2 (by decide)

theorem head_of_write {r : Ron} (hr : r.Plain) (level : Nat) : ∃ c cs, write level r = c :: cs ∧ c ≠ ')' := by
  cases r with
  | text content => exact ⟨_, _, by rw [write], by decide⟩
  | number value =>
    obtain ⟨c, cs, hchars⟩ := List.exists_cons_of_ne_nil (Nat.toDigits_ne_nil (n := value) (b := 10))
    refine ⟨c, cs, by rw [write, hchars], ?_⟩
    rintro rfl
    cases Number.isDigit_of_mem_toDigits (hchars ▸ List.mem_cons_self : ')' ∈ Nat.toDigits 10 value)
  | truth value => cases value <;> exact ⟨_, _, by rw [write], by decide⟩
  | absent => exact ⟨_, _, by rw [write], by decide⟩
  | present value => exact ⟨_, _, by rw [write], by decide⟩
  | word name =>
    rw [write]
    exact head_of_isWord (IsName.word (by simpa [Plain] using hr))
  | unit => exact ⟨_, _, by rw [write], by decide⟩
  | other depth => exact absurd hr (by simp [Plain])
  | list items => cases items <;> exact ⟨_, _, by rw [write], by decide⟩
  | record name fields =>
    rw [Plain] at hr
    rcases hr.1 with rfl | hname
    · exact ⟨'(', _, by rw [write]; rfl, by decide⟩
    · obtain ⟨c, cs, hchars, hc⟩ := head_of_isWord hname.word
      exact ⟨c, _, by rw [write, hchars]; rfl, hc⟩

theorem writeFields_head (level : Nat) (fields : List Field) (rest : List Char) :
    ∃ cs, writeFields (level + 1) fields ++ newLine level ++ rest = '\n' :: cs := by
  cases fields with
  | nil => exact ⟨_, rfl⟩
  | cons field fields =>
    obtain ⟨name, value⟩ := field
    exact ⟨_, by rw [writeFields, newLine]; rfl⟩

theorem scan_closing (c : Char) (h : moveBetween c = some ([.mark c], .between)) (found : List Lexeme) :
    (at_ found).scan [c] = some (at_ (.mark c :: found)) := by
  rw [scan_of_step (step_mark h found), scan_nil]

mutual

/-- The text of a value is scanned into its lexemes. -/
theorem scan_write : ∀ (r : Ron), r.Plain → ∀ (level : Nat) (found : List Lexeme),
    ∃ s, (at_ found).scan (write level r) = some s ∧ s.HasFound (r.lexemes.reverse ++ found)
  | .text content, _, level, found => by
    rw [write, lexemes]
    exact ⟨_, scan_text content found, hasFound_at _⟩
  | .number value, hr, level, found => by
    rw [Plain] at hr
    rw [write, lexemes]
    exact scan_number hr found
  | .truth true, _, level, found => by
    rw [write, lexemes]
    exact scan_word (show isWord "true" = true by decide) found
  | .truth false, _, level, found => by
    rw [write, lexemes]
    exact scan_word (show isWord "false" = true by decide) found
  | .absent, _, level, found => by
    rw [write, lexemes]
    exact scan_word (show isWord "None" = true by decide) found
  | .present value, hr, level, found => by
    rw [Plain] at hr
    obtain ⟨s, hs, hfound⟩ := scan_word (show isWord "Some" = true by decide) found
    obtain ⟨c, cs, hwrite, hc⟩ := head_of_write hr level
    obtain ⟨t, ht, htfound⟩ := scan_write value hr level (.mark '(' :: .word "Some" :: found)
    have hopen : (at_ (.word "Some" :: found)).step '(' = some ⟨.word "Some" :: found, .round⟩ := rfl
    have hinside : Scanner.scan ⟨.word "Some" :: found, .round⟩ (write level value ++ [')']) =
        (at_ (.mark '(' :: .word "Some" :: found)).scan (write level value ++ [')']) := by
      rw [hwrite]
      exact (standsFor_round _).scan hc _
    refine ⟨at_ (.mark ')' :: (value.lexemes.reverse ++ .mark '(' :: .word "Some" :: found)), ?_, ?_⟩
    · have hsplit : write level (.present value) = "Some".toList ++ '(' :: (write level value ++ [')']) := by
        rw [write]; rfl
      rw [hsplit, scan_of_scan hs, HasFound.scan hfound (by decide), scan_of_step hopen, hinside, scan_of_scan ht,
        HasFound.scan htfound (by decide)]
      exact scan_closing ')' rfl _
    · have hlexemes : (lexemes (.present value)).reverse ++ found =
          .mark ')' :: (value.lexemes.reverse ++ .mark '(' :: .word "Some" :: found) := by
        simp [lexemes]
      rw [hlexemes]
      exact hasFound_at _
  | .word name, hr, level, found => by
    rw [Plain] at hr
    rw [write, lexemes]
    exact scan_word hr.word found
  | .unit, _, level, found => by
    rw [write, lexemes]
    exact ⟨_, rfl, hasFound_at _⟩
  | .other depth, hr, level, found => absurd hr (by simp [Plain])
  | .list [], _, level, found => by
    rw [write, lexemes, itemLexemes]
    exact ⟨_, rfl, hasFound_at _⟩
  | .list (item :: items), hr, level, found => by
    rw [Plain] at hr
    have hitems := scan_writeItems (item :: items) hr (level + 1) (.mark '[' :: found)
    refine ⟨at_ (.mark ']' :: ((itemLexemes (item :: items)).reverse ++ .mark '[' :: found)), ?_, ?_⟩
    · rw [write, scan_of_step (step_mark rfl found), List.append_assoc, scan_of_scan hitems,
        scan_of_scan (scan_newLine level _)]
      exact scan_closing ']' rfl _
    · have hlexemes : (lexemes (.list (item :: items))).reverse ++ found =
          .mark ']' :: ((itemLexemes (item :: items)).reverse ++ .mark '[' :: found) := by
        rw [lexemes]
        simp
      rw [hlexemes]
      exact hasFound_at _
  | .record name fields, hr, level, found => by
    rw [Plain] at hr
    have hfields := scan_writeFields fields hr.2 (level + 1) (.mark '(' :: ((nameLexemes name).reverse ++ found))
    have hname (cs : List Char) : (at_ found).scan (name.toList ++ '(' :: cs) =
        Scanner.scan ⟨(nameLexemes name).reverse ++ found, .round⟩ cs := by
      have hopen (ls : List Lexeme) : (at_ ls).step '(' = some ⟨ls, .round⟩ := rfl
      rcases hr.1 with rfl | hname
      · exact scan_of_step (hopen found) cs
      · obtain ⟨s, hs, hfound⟩ := scan_word hname.word found
        have hne : name ≠ "" := by
          rintro rfl
          exact absurd hname.word (by decide)
        rw [scan_of_scan hs, HasFound.scan hfound (by decide), scan_of_step (hopen _), nameLexemes, if_neg hne]
        rfl
    refine ⟨at_ (.mark ')' :: ((fieldLexemes fields).reverse ++ .mark '(' :: ((nameLexemes name).reverse ++ found))),
      ?_, ?_⟩
    · obtain ⟨cs, hcs⟩ := writeFields_head level fields [')']
      rw [write, hname, hcs, (standsFor_round _).scan (by decide), ← hcs, List.append_assoc, scan_of_scan hfields,
        scan_of_scan (scan_newLine level _)]
      exact scan_closing ')' rfl _
    · have hlexemes : (lexemes (.record name fields)).reverse ++ found =
          .mark ')' :: ((fieldLexemes fields).reverse ++ .mark '(' :: ((nameLexemes name).reverse ++ found)) := by
        rw [lexemes]
        simp
      rw [hlexemes]
      exact hasFound_at _

theorem scan_writeItems : ∀ (items : List Ron), PlainItems items → ∀ (level : Nat) (found : List Lexeme),
    (at_ found).scan (writeItems level items) = some (at_ ((itemLexemes items).reverse ++ found))
  | [], _, level, found => by
    rw [writeItems, itemLexemes]
    rfl
  | item :: items, hitems, level, found => by
    rw [PlainItems] at hitems
    obtain ⟨s, hs, hfound⟩ := scan_write item hitems.1 level found
    have hrest := scan_writeItems items hitems.2 level (.mark ',' :: (item.lexemes.reverse ++ found))
    rw [writeItems, List.append_assoc, scan_of_scan (scan_newLine level found), scan_of_scan hs,
      HasFound.scan hfound (by decide), scan_of_step (step_mark rfl _), hrest, itemLexemes]
    simp

theorem scan_writeFields : ∀ (fields : List Field), PlainFields fields → ∀ (level : Nat) (found : List Lexeme),
    (at_ found).scan (writeFields level fields) = some (at_ ((fieldLexemes fields).reverse ++ found))
  | [], _, level, found => by
    rw [writeFields, fieldLexemes]
    rfl
  | .mk name value :: fields, hfields, level, found => by
    rw [PlainFields] at hfields
    obtain ⟨s, hs, hfound⟩ := scan_word hfields.1 found
    obtain ⟨t, ht, htfound⟩ := scan_write value hfields.2.1 level (.mark ':' :: .word name :: found)
    have hrest := scan_writeFields fields hfields.2.2 level
      (.mark ',' :: (value.lexemes.reverse ++ .mark ':' :: .word name :: found))
    have hspace (ls : List Lexeme) : (at_ ls).step ' ' = some (at_ ls) := rfl
    rw [writeFields, List.append_assoc, scan_of_scan (scan_newLine level found), scan_of_scan hs,
      HasFound.scan hfound (by decide), scan_of_step (step_mark rfl _), scan_of_step (hspace _), scan_of_scan ht,
      HasFound.scan htfound (by decide), scan_of_step (step_mark rfl _), hrest, fieldLexemes]
    simp

end

theorem lexemes?_write {r : Ron} (hr : r.Plain) : lexemes? (r.write 0) = some r.lexemes := by
  obtain ⟨s, hs, hfound⟩ := scan_write r hr 0 []
  have hresult := hfound.result
  rw [result?, Option.map_eq_some_iff] at hresult
  obtain ⟨last, hlast, hfound⟩ := hresult
  have hscan : (r.write 0).foldlM Scanner.step {} = some s := hs
  rw [lexemes?, hscan]
  simp only [Option.bind_eq_bind, Option.bind_some, hlast, hfound]
  simp

/-! ## Building -/

/-- The value that has just been read, if it is finished. -/
def Latest.value? : Latest → Option Ron
  | nothing => none
  | word name => wordValue? name
  | rawWord name => some (.word name)
  | value r => some r

/-- The unfinished record with some fields, the latest first. -/
def Frame.ofFields (head : Head) : List Field → Frame
  | [] => tuple head []
  | fields => record head fields none

theorem label_ofFields (head : Head) (fields : List Field) (name : String) :
    (Frame.ofFields head fields).label name = some (.record head fields (some name)) := by
  cases fields <;> rfl

theorem close_ofFields (name : String) (fields : List Field) :
    (Frame.ofFields (.named name) fields).close {} ')' = some (.record name fields.reverse) := by
  cases fields <;> rfl

theorem wordHead?_of_isName {name : String} (h : IsName name) : wordHead? name = some (.named name) := by
  have hne : name ≠ "Some" := by
    rintro rfl
    cases h.meaning
  rw [wordHead?, if_neg hne, h.meaning]

namespace Builder

/-- Takes some lexemes under the usual settings. -/
def run (b : Builder) (ls : List Lexeme) : Option Builder := ls.foldlM (step {}) b

theorem run_cons {b next : Builder} {l : Lexeme} (h : b.step {} l = some next) (ls : List Lexeme) :
    b.run (l :: ls) = next.run ls := by
  rw [run, List.foldlM_cons, h]
  rfl

theorem run_append {b next : Builder} {ls : List Lexeme} (h : b.run ls = some next) (more : List Lexeme) :
    b.run (ls ++ more) = next.run more := by
  have hls : ls.foldlM (step {}) b = some next := h
  rw [run, List.foldlM_append, hls]
  rfl

theorem settle_of_value? {f : Frame} {stack : List Frame} {x : Latest} {r : Ron} (hf : f ≠ .implied)
    (hx : x.value? = some r) : (Builder.mk (f :: stack) x).settle = some (f :: stack, r) := by
  have hfinish (r : Ron) : finishImplied (f :: stack) r = (f :: stack, r) := by
    cases f <;> first | rfl | exact absurd rfl hf
  cases x <;> simp_all [Latest.value?, settle]

theorem step_comma {f next : Frame} {stack : List Frame} {x : Latest} {r : Ron} (hf : f ≠ .implied)
    (hx : x.value? = some r) (hnext : f.add r = some next) :
    step {} ⟨f :: stack, x⟩ (.mark ',') = some ⟨next :: stack, .nothing⟩ := by
  show comma _ = _
  rw [comma, settle_of_value? hf hx]
  simp [hnext]

theorem step_closing {f : Frame} {stack : List Frame} {c : Char} {r : Ron} (hc : c = ')' ∨ c = ']')
    (hclose : f.close {} c = some r) : step {} ⟨f :: stack, .nothing⟩ (.mark c) = some ⟨stack, .value r⟩ := by
  rcases hc with rfl | rfl <;> simp [step, closing, hclose]

mutual

/-- The lexemes of a value build it, whatever is unfinished around it. -/
theorem run_lexemes : ∀ (r : Ron), r.Plain → ∀ stack : List Frame,
    ∃ x, run ⟨stack, .nothing⟩ r.lexemes = some ⟨stack, x⟩ ∧ x.value? = some r
  | .text content, _, stack => ⟨.value (.text content), by rw [lexemes]; rfl, rfl⟩
  | .number value, _, stack => ⟨.value (.number value), by rw [lexemes]; rfl, rfl⟩
  | .truth true, _, stack => ⟨.word "true", by rw [lexemes]; rfl, rfl⟩
  | .truth false, _, stack => ⟨.word "false", by rw [lexemes]; rfl, rfl⟩
  | .absent, _, stack => ⟨.word "None", by rw [lexemes]; rfl, rfl⟩
  | .present value, hr, stack => by
    rw [Plain] at hr
    obtain ⟨x, hrun, hx⟩ := run_lexemes value hr (.tuple .present [] :: stack)
    refine ⟨.value (.present value), ?_, rfl⟩
    have hword : step {} ⟨stack, .nothing⟩ (.word "Some") = some ⟨stack, .word "Some"⟩ := rfl
    have hopen : step {} ⟨stack, .word "Some"⟩ (.mark '(') = some ⟨.tuple .present [] :: stack, .nothing⟩ := rfl
    have hclose : step {} ⟨.tuple .present [] :: stack, x⟩ (.mark ')') = some ⟨stack, .value (.present value)⟩ := by
      have hsettle : (Builder.mk (.tuple .present [] :: stack) x).settle = some (.tuple .present [] :: stack, value) :=
        settle_of_value? (by simp) hx
      cases x <;> simp_all [Latest.value?, step, closing, Frame.add, Frame.close, Frame.closeTuple]
    rw [lexemes, run_cons hword, run_cons hopen, run_append hrun, run_cons hclose]
    rfl
  | .word name, hr, stack => by
    rw [Plain] at hr
    exact ⟨.word name, by rw [lexemes]; rfl, hr.meaning⟩
  | .unit, _, stack => ⟨.value .unit, by rw [lexemes]; rfl, rfl⟩
  | .other depth, hr, stack => absurd hr (by simp [Plain])
  | .list items, hr, stack => by
    rw [Plain] at hr
    have hopen : step {} ⟨stack, .nothing⟩ (.mark '[') = some ⟨.list [] :: stack, .nothing⟩ := rfl
    have hclose : (Frame.list (items.reverse ++ [])).close {} ']' = some (.list items) := by
      simp [Frame.close]
    refine ⟨.value (.list items), ?_, rfl⟩
    rw [lexemes, run_cons hopen, run_append (run_itemLexemes items hr [] stack),
      run_cons (step_closing (Or.inr rfl) hclose)]
    rfl
  | .record name fields, hr, stack => by
    rw [Plain] at hr
    have hhead (ls : List Lexeme) : run ⟨stack, .nothing⟩ (nameLexemes name ++ .mark '(' :: ls) =
        run ⟨.tuple (.named name) [] :: stack, .nothing⟩ ls := by
      rcases hr.1 with rfl | hname
      · exact run_cons (b := ⟨stack, .nothing⟩) rfl ls
      · have hne : name ≠ "" := by
          rintro rfl
          exact absurd hname.word (by decide)
        have hword : step {} ⟨stack, .nothing⟩ (.word name) = some ⟨stack, .word name⟩ := rfl
        have hopen : step {} ⟨stack, .word name⟩ (.mark '(') =
            some ⟨.tuple (.named name) [] :: stack, .nothing⟩ := by
          simp [step, openRound, head?, wordHead?_of_isName hname]
        rw [nameLexemes, if_neg hne, List.cons_append, List.nil_append, run_cons hword, run_cons hopen]
    have hclose := close_ofFields name (fields.reverse ++ [])
    rw [List.append_nil, List.reverse_reverse] at hclose
    refine ⟨.value (.record name fields), ?_, rfl⟩
    have hfields := run_fieldLexemes fields hr.2 (.named name) [] stack
    rw [List.append_nil] at hfields
    rw [lexemes, hhead]
    exact (run_append hfields _).trans ((run_cons (step_closing (Or.inl rfl) hclose) _).trans rfl)

theorem run_itemLexemes : ∀ (items : List Ron), PlainItems items → ∀ (done : List Ron) (stack : List Frame),
    run ⟨.list done :: stack, .nothing⟩ (itemLexemes items) = some ⟨.list (items.reverse ++ done) :: stack, .nothing⟩
  | [], _, done, stack => by
    rw [itemLexemes]
    rfl
  | item :: items, hitems, done, stack => by
    rw [PlainItems] at hitems
    obtain ⟨x, hrun, hx⟩ := run_lexemes item hitems.1 (.list done :: stack)
    have hrest := run_itemLexemes items hitems.2 (item :: done) stack
    rw [itemLexemes, run_append hrun, run_cons (step_comma (by simp) hx rfl), hrest]
    simp

theorem run_fieldLexemes : ∀ (fields : List Field), PlainFields fields →
    ∀ (head : Head) (done : List Field) (stack : List Frame),
    run ⟨.ofFields head done :: stack, .nothing⟩ (fieldLexemes fields) =
      some ⟨.ofFields head (fields.reverse ++ done) :: stack, .nothing⟩
  | [], _, head, done, stack => by
    rw [fieldLexemes]
    rfl
  | .mk name value :: fields, hfields, head, done, stack => by
    rw [PlainFields] at hfields
    obtain ⟨x, hrun, hx⟩ := run_lexemes value hfields.2.1 (.record head done (some name) :: stack)
    have hword : step {} ⟨.ofFields head done :: stack, .nothing⟩ (.word name) =
        some ⟨.ofFields head done :: stack, .word name⟩ := rfl
    have hcolon : step {} ⟨.ofFields head done :: stack, .word name⟩ (.mark ':') =
        some ⟨.record head done (some name) :: stack, .nothing⟩ := by
      show colon _ = _
      simp [colon, label, label_ofFields]
    have hcomma : step {} ⟨.record head done (some name) :: stack, x⟩ (.mark ',') =
        some ⟨.ofFields head (.mk name value :: done) :: stack, .nothing⟩ :=
      step_comma (by simp) hx rfl
    rw [fieldLexemes, run_cons hword, run_cons hcolon, run_append hrun, run_cons hcomma,
      run_fieldLexemes fields hfields.2.2 head (.mk name value :: done) stack]
    simp

end

end Builder

theorem ofLexemes?_lexemes {r : Ron} (hr : r.Plain) : ofLexemes? {} r.lexemes = some r := by
  obtain ⟨x, hrun, hx⟩ := Builder.run_lexemes r hr []
  have hfold : r.lexemes.foldlM (Builder.step {}) {} = some ⟨[], x⟩ := hrun
  have hsettle : (Builder.mk [] x).settle = some ([], r) := by
    cases x <;> simp_all [Latest.value?, Builder.settle, Builder.finishImplied]
  rw [ofLexemes?, hfold]
  simp [hsettle]

theorem read?_settings {ls : List Lexeme} (h : ls.head? ≠ some (.mark '#')) : Settings.read? {} ls = some ({}, ls) := by
  rw [Settings.read?.eq_2]
  rintro rest rfl
  exact h rfl

theorem read?_toText {r : Ron} (hr : r.Plain) (hdepth : r.depth ≤ maxDepth) : read? r.toText = some ({}, r) := by
  have hhead : r.lexemes.head? ≠ some (.mark '#') := by
    cases r with
    | truth value => cases value <;> simp [lexemes]
    | record name fields =>
      rw [lexemes, nameLexemes]
      split <;> simp
    | other depth => exact absurd hr (by simp [Plain])
    | text | number | absent | present | word | unit | list => simp [lexemes]
  have hlexemes : lexemes? r.toText.toList = some r.lexemes := by
    rw [toText, String.toList_ofList]
    exact lexemes?_write hr
  rw [read?, hlexemes]
  simp [read?_settings hhead, ofLexemes?_lexemes hr, hdepth]

end ShadeGraph.Ron
