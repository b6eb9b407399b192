import IpApps.Lib.ShellWords

/-!
# Lines of plain words

A line that is put together piece by piece, as the shell reads it. `ReadsAs` says which words a
piece adds to a line, wherever it stands in it, and the pieces of a line are read one by one.
-/

namespace IpApps
namespace ShellWords

/-- A word of characters that stand for themselves. -/
def IsWord (w : List Char) : Prop := w ≠ [] ∧ w.all isWordChar = true

instance (w : List Char) : Decidable (IsWord w) := inferInstanceAs (Decidable (_ ∧ _))

/-- The text of a part of a word, which is known if nothing is expanded between its double
quotes. -/
def WordPart.text : WordPart → Option (List Char)
  | plain c => some [c]
  | escaped c => some [c]
  | single text => some text
  | quoted text => if text.all isLiteral then some text else none

/-- The text of a word. -/
def wordText (word : List WordPart) : Option (List Char) :=
  (word.mapM WordPart.text).map List.flatten

/-- The arguments that the shell makes of a line, if it is one simple command and all of their texts
are known. -/
def lineWords (sh : Shell) (line : List Char) : Option (List (List Char)) :=
  (readWords sh 0 [] line).bind (·.mapM wordText)

section texts

theorem wordText_plain (w : List Char) : wordText (w.map .plain) = some w := by
  have hparts : (w.map WordPart.plain).mapM WordPart.text = some (w.map ([·])) := by
    induction w with
    | nil => rfl
    | cons c w ih =>
      rw [List.map_cons, List.mapM_cons, ih]
      rfl
  rw [wordText, hparts, Option.map_some, ← List.flatMap_def, List.flatMap_singleton']

theorem wordText_quoted {text : List Char} (h : text.all isLiteral = true) :
    wordText [.quoted text] = some text := by
  have hpart : (WordPart.quoted text).text = some text := if_pos h
  rw [wordText, List.mapM_cons, hpart]
  show some ([text].flatten) = some text
  rw [List.flatten_singleton]

theorem mapM_wordText_plain (words : List (List Char)) (more : List (List WordPart)) :
    (words.map (·.map WordPart.plain) ++ more).mapM wordText
      = (more.mapM wordText).map (words ++ ·) := by
  induction words with
  | nil => simp
  | cons w words ih =>
    rw [List.map_cons, List.cons_append, List.mapM_cons, wordText_plain, ih]
    cases more.mapM wordText <;> rfl

variable {sh : Shell}

/-- A command line whose last argument is text between double quotes. -/
theorem lineWords_quotedCommand {words : List (List Char)} {text : List Char}
    (hwords : ∀ w ∈ words, IsWord w) (htext : text.all isLiteral = true) :
    lineWords sh (quotedCommand words text) = some (words ++ [text]) := by
  have hlast := readWords_quoted.mpr (@readQuoted_closed sh _ htext [' '])
  rw [lineWords, quotedCommand, readWords_words hwords, readWords_blank, hlast]
  show List.mapM wordText (words.map (·.map .plain) ++ [[.quoted text]]) = _
  rw [mapM_wordText_plain, List.mapM_cons, wordText_quoted htext]
  rfl

end texts

/-! ## Pieces of a line -/

section pieces

variable {sh : Shell}

/-- A text in front of which a word ends. -/
def EndsWord (s : List Char) : Prop := ∀ c ∈ s.head?, c = ' '

theorem endsWord_nil : EndsWord [] := by
  rintro c ⟨⟩

theorem endsWord_cons (s : List Char) : EndsWord (' ' :: s) := by
  rintro c ⟨⟩
  rfl

theorem EndsWord.append {s s' : List Char} (h : EndsWord s) (h' : EndsWord s') :
    EndsWord (s ++ s') := by
  cases s with
  | nil => exact h'
  | cons c s => exact h

/-- The word in front of a text is one of the words of the line. -/
theorem readWords_endsWord {cs : List Char} (h : EndsWord cs) (word : List WordPart) :
    readWords sh 0 word cs = (readWords sh 0 [] cs).map (endWord word) := by
  cases cs with
  | nil => rfl
  | cons c cs =>
    have hc : c = ' ' := h c rfl
    rw [hc, readWords_blank, readWords_blank, Option.map_map]
    rfl

/-- The shell reads the text as these words, wherever it stands in a line. -/
structure ReadsAs (sh : Shell) (text : List Char) (words : List (List Char)) : Prop where
  endsWord : EndsWord text
  readWords_append : ∀ word cs, EndsWord cs → readWords sh 0 word (text ++ cs)
    = (readWords sh 0 [] cs).map (endWord word <| words.map (·.map .plain) ++ ·)

namespace ReadsAs

theorem nil : ReadsAs sh [] [] := ⟨endsWord_nil, fun word _ hcs => readWords_endsWord hcs word⟩

theorem blank : ReadsAs sh [' '] [] := ⟨endsWord_cons [], fun word cs _ => readWords_blank word cs⟩

theorem word {w : List Char} (h : IsWord w) : ReadsAs sh (' ' :: w) [w] := by
  refine ⟨endsWord_cons w, fun word cs hcs => ?_⟩
  rw [List.cons_append, readWords_blank, readWords_plain_append h.2, readWords_endsWord hcs,
    Option.map_map]
  congr
  funext later
  have hend : endWord (w.map WordPart.plain) later = w.map .plain :: later :=
    if_neg (by simpa using h.1)
  show endWord word (endWord ([] ++ w.map .plain) later) = endWord word (w.map .plain :: later)
  rw [List.nil_append, hend]

theorem append {text text' : List Char} {words words' : List (List Char)}
    (h : ReadsAs sh text words) (h' : ReadsAs sh text' words') :
    ReadsAs sh (text ++ text') (words ++ words') := by
  refine ⟨h.endsWord.append h'.endsWord, fun word cs hcs => ?_⟩
  rw [List.append_assoc, h.readWords_append _ _ (h'.endsWord.append hcs),
    h'.readWords_append _ _ hcs, Option.map_map]
  congr
  funext later
  simp [endWord]

/-- A flag and its argument. -/
theorem option {flag argument : List Char} (hflag : IsWord flag) (hargument : IsWord argument) :
    ReadsAs sh (' ' :: flag ++ ' ' :: argument) [flag, argument] :=
  (word hflag).append (word hargument)

/-- Pieces that there are under a condition. -/
theorem flatten_ite (c : Prop) [Decidable c] {texts texts' words words' : List (List Char)}
    (h : ReadsAs sh texts.flatten words) (h' : ReadsAs sh texts'.flatten words') :
    ReadsAs sh (if c then texts else texts').flatten (if c then words else words') := by
  split
  · exact h
  · exact h'

theorem flatten_append {texts texts' words words' : List (List Char)}
    (h : ReadsAs sh texts.flatten words) (h' : ReadsAs sh texts'.flatten words') :
    ReadsAs sh (texts ++ texts').flatten (words ++ words') :=
  List.flatten_append ▸ h.append h'

/-- A line that starts with a word. -/
theorem lineWords {text w : List Char} {words : List (List Char)} (h : ReadsAs sh text words)
    (hw : IsWord w) : ShellWords.lineWords sh (w ++ text) = some (w :: words) := by
  have hread := h.readWords_append (w.map .plain) [] endsWord_nil
  have hword : w.map WordPart.plain ≠ [] := by simpa using hw.1
  rw [List.append_nil] at hread
  have hmap := mapM_wordText_plain (w :: words) []
  simp only [List.mapM_nil, Option.pure_def, Option.map_some, List.append_nil] at hmap
  rw [ShellWords.lineWords, readWords_plain_append hw.2, List.nil_append, hread]
  show ((endWord (w.map .plain) (words.map (·.map .plain) ++ [])).mapM wordText) = _
  rw [endWord, if_neg hword, List.append_nil]
  exact hmap

end ReadsAs

/-! ## Operators -/

/-- The characters of the operators that may stand between double quotes as well. -/
def operators : List Char := ['|', '&', ';', '<', '>', '(', '\n']

/-- A character of a word or of an operator. -/
def isCommandChar (c : Char) : Bool := isWordChar c || c ∈ operators

theorem readWords_operator {c : Char} (h : c ∈ operators) (word : List WordPart)
    (cs : List Char) : readWords sh 0 word (c :: cs) = none := by
  simp only [operators, List.mem_cons, List.not_mem_nil, or_false] at h
  rcases h with rfl | rfl | rfl | rfl | rfl | rfl | rfl <;> rfl

/-- A line with an operator is not one simple command of words. -/
theorem readWords_operators {w : List Char} (h : w.all isCommandChar = true)
    (hw : ¬w.all isWordChar = true) (word : List WordPart) (cs : List Char) :
    readWords sh 0 word (w ++ cs) = none := by
  induction w generalizing word with
  | nil => exact absurd rfl hw
  | cons c w ih =>
    rw [List.all_cons, Bool.and_eq_true, isCommandChar, Bool.or_eq_true] at h
    rw [List.cons_append]
    cases hc : isWordChar c with
    | true =>
      rw [readWords_plain hc]
      exact ih h.2 (by simpa [hc] using hw) _
    | false =>
      have hoperator := h.1.resolve_left (by simp [hc])
      exact readWords_operator (of_decide_eq_true hoperator) word _

theorem ReadsAs.lineWords_operators {text w : List Char} {words : List (List Char)}
    (h : ReadsAs sh text words) (hw : w.all isCommandChar = true) (hnot : ¬w.all isWordChar = true)
    {first : List Char} (hfirst : first.all isWordChar = true) (cs : List Char) :
    ShellWords.lineWords sh (first ++ (text ++ ' ' :: (w ++ cs))) = none := by
  have hnone : readWords sh 0 [] (' ' :: (w ++ cs)) = none := by
    rw [readWords_blank, readWords_operators hw hnot, Option.map_none]
  rw [ShellWords.lineWords, readWords_plain_append hfirst,
    h.readWords_append _ _ (endsWord_cons _), hnone]
  rfl

end pieces

end ShellWords
end IpApps
