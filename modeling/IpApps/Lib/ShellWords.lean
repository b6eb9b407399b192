import Mathlib.Data.List.Basic
import Mathlib.Data.Nat.Notation

/-!
# Command lines as the POSIX shell reads them

Token recognition for lines that are to be one simple command: words separated by blanks, with
the three kinds of quoting. Between double quotes a dollar sign and a backquote keep their
meaning, so quoted text can run commands of its own, and a double quote ends it. How far `${` and
`$((` reach is left to the shell; the reader relies on their ends only.
-/

namespace IpApps
namespace ShellWords

/-! ## Double quotes -/

/-- The backquote, which starts a command substitution. -/
def backquote : Char := '\x60'

/-- The expansions that reach up to a matching end. -/
inductive Opening
  /-- `${`. -/
  | brace
  /-- `$((`. -/
  | arithmetic
  deriving DecidableEq, Repr

/-- The character that the end of an expansion ends with. -/
def Opening.closing : Opening → Char
  | brace => '}'
  | arithmetic => ')'

/-- What is taken from the rest of the shell: how far an expansion reaches, from the text behind
its opening. It has no span if it does not end or if a command is run in it. -/
structure Shell where
  span : Opening → List Char → Option ℕ
  /-- An expansion ends with its closing character. -/
  closed : ∀ {o cs n}, span o cs = some n →
    ∃ body rest, cs = body ++ [o.closing] ++ rest ∧ n = (body ++ [o.closing]).length
  /-- The text behind the end is not part of it. -/
  upTo : ∀ {o text rest}, span o (text ++ rest) = some text.length →
    ∀ rest', span o (text ++ rest') = some text.length

/-- Where the reader is between double quotes. -/
inductive QuoteState
  | inside
  | backslash
  | dollar
  /-- Behind a dollar sign and the backslash of a line that goes on. -/
  | dollarLine
  /-- Behind `$(`. -/
  | paren
  /-- Behind `$(` and the backslash of a line that goes on. -/
  | parenLine
  /-- In an expansion, with one character more than `left` to its end. -/
  | expansion (left : ℕ)
  deriving DecidableEq, Repr

inductive QuoteStep
  | go (st : QuoteState)
  | close
  | broken
  deriving DecidableEq, Repr

/-- A character without anything in front of it that matters. -/
def insideStep (c : Char) : QuoteStep :=
  if c = '"' then .close
  else if c = backquote then .broken
  else if c = '\\' then .go .backslash
  else if c = '$' then .go .dollar
  else .go .inside

section reader

variable (sh : Shell)

/-- The reader behind an opening. -/
def expansionStep (o : Opening) (cs : List Char) : QuoteStep :=
  match sh.span o cs with
  | some (left + 1) => .go (.expansion left)
  | _ => .broken

/-- One character `c` between double quotes, in front of `cs`. -/
def quoteStep : QuoteState → Char → List Char → QuoteStep
  | .inside, c, _ => insideStep c
  | .backslash, c, _ =>
    -- the characters that a backslash quotes
    if c = '$' ∨ c = backquote ∨ c = '"' ∨ c = '\\' ∨ c = '\n' then .go .inside
    else insideStep c
  | .dollar, c, cs =>
    if c = '\\' ∧ cs.head? = some '\n' then .go .dollarLine
    else if c = '(' then .go .paren
    else if c = '{' then expansionStep sh .brace cs
    -- the process ID; other parameters need no more than their characters
    else if c = '$' then .go .inside
    else insideStep c
  | .dollarLine, _, _ => .go .dollar
  | .paren, c, cs =>
    if c = '\\' ∧ cs.head? = some '\n' then .go .parenLine
    else if c = '(' then expansionStep sh .arithmetic cs
    else .broken
  | .parenLine, _, _ => .go .paren
  | .expansion 0, _, _ => .go .inside
  | .expansion (left + 1), _, _ => .go (.expansion left)

/-- How text between double quotes ends. -/
inductive QuoteEnd
  /-- At a double quote, with the text in front of it and the rest of the line. -/
  | closed (text rest : List Char)
  /-- Still between the double quotes. -/
  | inside
  /-- In a command substitution, or in an expansion that does not end. -/
  | broken
  deriving DecidableEq, Repr

/-- The end of a text with something in front. -/
def QuoteEnd.prepend (front : List Char) : QuoteEnd → QuoteEnd
  | closed text rest => closed (front ++ text) rest
  | inside => inside
  | broken => broken

def readQuoted : QuoteState → List Char → QuoteEnd
  | .paren, [] => .broken
  | .parenLine, [] => .broken
  | .expansion _, [] => .broken
  | _, [] => .inside
  | st, c :: cs =>
    match quoteStep sh st c cs with
    | .close => .closed [] cs
    | .broken => .broken
    | .go st => (readQuoted st cs).prepend [c]

/-- Text that can stand between double quotes: it does not end them, and no command is run in
it. -/
def StaysQuoted (text : List Char) : Prop := readQuoted sh .inside text = .inside

instance (text : List Char) : Decidable (StaysQuoted sh text) :=
  inferInstanceAs (Decidable (_ = _))

/-! ## Text behind quoted text -/

/-- No expansion ends in the text. -/
def NoClosing (s : List Char) : Prop := ∀ o : Opening, o.closing ∉ s

section behind

variable {sh}

/-- An expansion does not reach into text without closing characters. -/
theorem span_append {s : List Char} (hs : NoClosing s) (o : Opening) (cs : List Char) :
    sh.span o (cs ++ s) = sh.span o cs := by
  have hextend : ∀ {n}, sh.span o cs = some n → sh.span o (cs ++ s) = some n := by
    intro n h
    have ⟨body, rest, hcs, hn⟩ := sh.closed h
    rw [hn, hcs] at h
    rw [hn, hcs, List.append_assoc]
    exact sh.upTo h _
  cases h : sh.span o (cs ++ s) with
  | none =>
    cases h' : sh.span o cs with
    | none => rfl
    | some n => rw [hextend h'] at h; exact absurd h nofun
  | some n =>
    have ⟨body, rest, hcs, hn⟩ := sh.closed h
    -- the closing character stands in front of `s`
    have hprefix : ∃ rest', cs = body ++ [o.closing] ++ rest' := by
      rcases List.append_eq_append_iff.mp hcs with ⟨front, hbody, hs'⟩ | ⟨rest', hcs', _⟩
      · rcases List.eq_nil_or_concat front with rfl | ⟨front', c, rfl⟩
        · exact ⟨[], by simpa using hbody.symm⟩
        · have hc : c = o.closing := by
            rw [List.concat_eq_append, ← List.append_assoc] at hbody
            exact (List.cons.inj (List.append_inj' hbody rfl).2).1.symm
          refine absurd ?_ (hs o)
          rw [hs', hc]
          simp
      · exact ⟨rest', hcs'⟩
    have ⟨rest', hcs'⟩ := hprefix
    rw [hn, hcs', List.append_assoc] at h
    have hspan := sh.upTo h rest'
    rw [hn]
    exact (hcs' ▸ hspan).symm

/-- The step at a character does not depend on text that starts with a blank. -/
theorem quoteStep_append {s : List Char} (hs : NoClosing (' ' :: s)) (st : QuoteState) (c : Char)
    (cs : List Char) : quoteStep sh st c (cs ++ ' ' :: s) = quoteStep sh st c cs := by
  have hspan : ∀ o, expansionStep sh o (cs ++ ' ' :: s) = expansionStep sh o cs := fun o => by
    rw [expansionStep, expansionStep, span_append hs]
  have hline : (cs ++ ' ' :: s).head? = some '\n' ↔ cs.head? = some '\n' := by
    cases cs <;> simp
  cases st with
  | inside => rfl
  | backslash => rfl
  | dollar => simp only [quoteStep, hspan, hline]
  | dollarLine => rfl
  | paren => simp only [quoteStep, hspan, hline]
  | parenLine => rfl
  | expansion left => cases left <;> rfl

/-- The number of characters that the reader skips next. -/
def QuoteState.left : QuoteState → ℕ
  | dollarLine => 1
  | parenLine => 1
  | expansion left => left + 1
  | _ => 0

theorem left_insideStep {c : Char} {st : QuoteState} (h : insideStep c = .go st) (n : ℕ) :
    st.left ≤ n := by
  unfold insideStep at h
  split at h
  · exact absurd h nofun
  split at h
  · exact absurd h nofun
  split at h
  · cases h; exact Nat.zero_le n
  split at h <;> (cases h; exact Nat.zero_le n)

theorem left_expansionStep {o : Opening} {cs : List Char} {st : QuoteState}
    (h : expansionStep sh o cs = .go st) : st.left ≤ cs.length := by
  unfold expansionStep at h
  split at h
  · rename_i left hspan
    cases h
    have ⟨body, rest, hcs, hn⟩ := sh.closed hspan
    calc left + 1 = (body ++ [o.closing]).length := hn
      _ ≤ (body ++ [o.closing] ++ rest).length := by simp
      _ = cs.length := by rw [hcs]
  · exact absurd h nofun

theorem left_line {cs : List Char} (h : cs.head? = some '\n') : 1 ≤ cs.length := by
  cases cs with
  | nil => exact absurd h nofun
  | cons c cs => simp

/-- What is skipped stays in the text. -/
theorem left_quoteStep {st st' : QuoteState} {c : Char} {cs : List Char}
    (h : quoteStep sh st c cs = .go st') (hleft : st.left ≤ cs.length + 1) :
    st'.left ≤ cs.length := by
  cases st with
  | inside => exact left_insideStep h _
  | backslash =>
    rw [quoteStep] at h
    split at h
    · cases h; exact Nat.zero_le _
    · exact left_insideStep h _
  | dollar =>
    rw [quoteStep] at h
    split at h
    · rename_i hline
      cases h
      exact left_line hline.2
    split at h
    · cases h; exact Nat.zero_le _
    split at h
    · exact left_expansionStep h
    split at h
    · cases h; exact Nat.zero_le _
    · exact left_insideStep h _
  | dollarLine => cases h; exact Nat.zero_le _
  | paren =>
    rw [quoteStep] at h
    split at h
    · rename_i hline
      cases h
      exact left_line hline.2
    split at h
    · exact left_expansionStep h
    · exact absurd h nofun
  | parenLine => cases h; exact Nat.zero_le _
  | expansion left =>
    cases left with
    | zero => cases h; exact Nat.zero_le _
    | succ left =>
      cases h
      show left + 1 ≤ cs.length
      exact Nat.le_of_succ_le_succ hleft

/-- The end of a text that `more` stands behind, where `next` is the end from there. -/
def QuoteEnd.followedBy (e : QuoteEnd) (text more : List Char) (next : QuoteEnd) : QuoteEnd :=
  match e with
  | closed text rest => closed text (rest ++ more)
  | inside => next.prepend text
  | broken => broken

@[simp] theorem QuoteEnd.prepend_nil (e : QuoteEnd) : e.prepend [] = e := by
  cases e <;> rfl

theorem QuoteEnd.prepend_prepend (front text : List Char) (e : QuoteEnd) :
    (e.prepend text).prepend front = e.prepend (front ++ text) := by
  cases e with
  | closed => simp [prepend]
  | inside => rfl
  | broken => rfl

/-- Text that starts with a blank is read on its own if the text in front of it stays between the
double quotes. -/
theorem readQuoted_append {s : List Char} (hs : NoClosing (' ' :: s)) (text : List Char)
    {st : QuoteState} (hleft : st.left ≤ text.length) :
    readQuoted sh st (text ++ ' ' :: s)
      = (readQuoted sh st text).followedBy text (' ' :: s) (readQuoted sh .inside (' ' :: s)) := by
  induction text generalizing st with
  | nil =>
    cases st with
    | inside => exact (QuoteEnd.prepend_nil _).symm
    | backslash => exact (QuoteEnd.prepend_nil _).symm
    | dollar => exact (QuoteEnd.prepend_nil _).symm
    | dollarLine => exact absurd hleft (by decide)
    | paren => rfl
    | parenLine => exact absurd hleft (by decide)
    | expansion left => exact absurd hleft (by simp [QuoteState.left])
  | cons c cs ih =>
    rw [List.cons_append, readQuoted, readQuoted, quoteStep_append hs]
    cases h : quoteStep sh st c cs with
    | close => rfl
    | broken => rfl
    | go st' =>
      show (readQuoted sh st' (cs ++ ' ' :: s)).prepend [c]
        = ((readQuoted sh st' cs).prepend [c]).followedBy (c :: cs) (' ' :: s) _
      rw [ih (left_quoteStep h hleft)]
      cases readQuoted sh st' cs with
      | closed => rfl
      | inside => exact QuoteEnd.prepend_prepend [c] cs _
      | broken => rfl

theorem eq_of_insideStep_close {c : Char} (h : insideStep c = .close) : c = '"' := by
  unfold insideStep at h
  split at h
  · assumption
  split at h
  · exact absurd h nofun
  split at h
  · exact absurd h nofun
  split at h <;> exact absurd h nofun

theorem expansionStep_ne_close {o : Opening} {cs : List Char} :
    expansionStep sh o cs ≠ .close := by
  unfold expansionStep
  split <;> nofun

/-- Quoted text is closed by a double quote only. -/
theorem eq_of_quoteStep_close {st : QuoteState} {c : Char} {cs : List Char}
    (h : quoteStep sh st c cs = .close) : c = '"' := by
  cases st with
  | inside => exact eq_of_insideStep_close h
  | backslash =>
    rw [quoteStep] at h
    split at h
    · exact absurd h nofun
    · exact eq_of_insideStep_close h
  | dollar =>
    rw [quoteStep] at h
    split at h
    · exact absurd h nofun
    split at h
    · exact absurd h nofun
    split at h
    · exact absurd h expansionStep_ne_close
    split at h
    · exact absurd h nofun
    · exact eq_of_insideStep_close h
  | dollarLine => exact absurd h nofun
  | paren =>
    rw [quoteStep] at h
    split at h
    · exact absurd h nofun
    split at h
    · exact absurd h expansionStep_ne_close
    · exact absurd h nofun
  | parenLine => exact absurd h nofun
  | expansion left => cases left <;> exact absurd h nofun

/-- The text that ends at a double quote, and the rest. -/
theorem eq_of_readQuoted_closed {st : QuoteState} {cs text rest : List Char}
    (h : readQuoted sh st cs = .closed text rest) : cs = text ++ '"' :: rest := by
  induction cs generalizing st text with
  | nil => cases st <;> exact absurd h nofun
  | cons c cs ih =>
    rw [readQuoted] at h
    cases hstep : quoteStep sh st c cs with
    | close =>
      rw [hstep] at h
      cases h
      rw [eq_of_quoteStep_close hstep]
      rfl
    | broken => rw [hstep] at h; exact absurd h nofun
    | go st' =>
      replace h : (readQuoted sh st' cs).prepend [c] = .closed text rest := by rwa [hstep] at h
      cases hrest : readQuoted sh st' cs with
      | closed text' rest' =>
        rw [hrest] at h
        cases h
        rw [ih hrest]
        rfl
      | inside => rw [hrest] at h; exact absurd h nofun
      | broken => rw [hrest] at h; exact absurd h nofun

end behind

/-- A list without characters of a kind. -/
theorem notMem_of_all_not {p : Char → Bool} {l : List Char} (hp : l.all (!p ·) = true) {c : Char}
    (h : p c = true) : c ∉ l := by
  intro hc
  have hpc := List.all_eq_true.mp hp c hc
  rw [h] at hpc
  exact absurd hpc (by decide)

/-- The characters that are not only text between double quotes, and those that end an
expansion. -/
def notLiteral : List Char := ['"', backquote, '\\', '$', '}', ')']

/-- A character that only stands for itself between double quotes. -/
def isLiteral (c : Char) : Bool := c ∉ notLiteral

section literal

variable {sh}

theorem insideStep_literal {c : Char} (h : isLiteral c = true) : insideStep c = .go .inside := by
  simp only [isLiteral, notLiteral, List.mem_cons, List.not_mem_nil, or_false, not_or,
    decide_eq_true_eq] at h
  rw [insideStep, if_neg h.1, if_neg h.2.1, if_neg h.2.2.1, if_neg h.2.2.2.1]

theorem isLiteral_of {p : Char → Bool} (hp : notLiteral.all (!p ·) = true) {c : Char}
    (h : p c = true) : isLiteral c = true :=
  decide_eq_true (notMem_of_all_not hp h)

theorem noClosing_literal {s : List Char} (hs : s.all isLiteral = true) : NoClosing s := by
  intro o ho
  have hc := List.all_eq_true.mp hs _ ho
  cases o <;> exact absurd hc (by decide)

theorem readQuoted_literal {s : List Char} (hs : s.all isLiteral = true) (cs : List Char) :
    readQuoted sh .inside (s ++ cs) = (readQuoted sh .inside cs).prepend s := by
  induction s with
  | nil => exact (QuoteEnd.prepend_nil _).symm
  | cons c s ih =>
    rw [List.all_cons, Bool.and_eq_true] at hs
    rw [List.cons_append, readQuoted, quoteStep, insideStep_literal hs.1]
    show (readQuoted sh .inside (s ++ cs)).prepend [c] = _
    rw [ih hs.2, QuoteEnd.prepend_prepend]
    rfl

theorem readQuoted_quote (rest : List Char) :
    readQuoted sh .inside ('"' :: rest) = .closed [] rest := rfl

/-- Literal text between double quotes ends at the next one. -/
theorem readQuoted_closed {s : List Char} (hs : s.all isLiteral = true) (rest : List Char) :
    readQuoted sh .inside (s ++ '"' :: rest) = .closed s rest := by
  rw [readQuoted_literal hs, readQuoted_quote]
  simp [QuoteEnd.prepend]

/-- A text between literal texts leaves the double quotes where they are if and only if it can
stand between double quotes. -/
theorem readQuoted_around {before text after rest : List Char}
    (hbefore : before.all isLiteral = true) (hafter : (' ' :: after).all isLiteral = true)
    (hrest : NoClosing rest) :
    readQuoted sh .inside (before ++ (text ++ ' ' :: (after ++ '"' :: rest)))
        = .closed (before ++ (text ++ ' ' :: after)) rest
      ↔ StaysQuoted sh text := by
  have hclosing : NoClosing (' ' :: (after ++ '"' :: rest)) := by
    intro o ho
    rw [← List.cons_append] at ho
    rcases List.mem_append.mp ho with hmem | hmem
    · exact noClosing_literal hafter o hmem
    rcases List.mem_cons.mp hmem with hquote | hmem
    · cases o <;> exact absurd hquote (by decide)
    · exact hrest o hmem
  rw [readQuoted_literal hbefore, readQuoted_append hclosing text (Nat.zero_le _),
    ← List.cons_append, readQuoted_closed hafter, StaysQuoted]
  cases h : readQuoted sh .inside text with
  | inside => simp [QuoteEnd.followedBy, QuoteEnd.prepend]
  | broken => simp [QuoteEnd.followedBy, QuoteEnd.prepend]
  | closed text' rest' =>
    -- the double quotes end too early
    refine iff_of_false ?_ nofun
    intro heq
    have htext := QuoteEnd.closed.inj heq |>.1
    have hlength := congrArg List.length htext
    rw [eq_of_readQuoted_closed h] at hlength
    simp only [List.length_append, List.length_cons] at hlength
    omega

end literal

/-! ## Words -/

/-- A part of a word. -/
inductive WordPart
  | plain (c : Char)
  | escaped (c : Char)
  | single (text : List Char)
  | quoted (text : List Char)
  deriving DecidableEq, Repr

/-- The characters that may not stand for themselves outside quotes: operators and the line end,
and those of expansions, patterns, assignments and reserved words. -/
def specials : List Char :=
  ['|', '&', ';', '<', '>', '(', ')', '\n', '$', backquote, '*', '?', '[', '~', '=', '{', '}', '!']

def blanks : List Char := [' ', '\t']

/-- Ends the word that is being read. -/
def endWord (word : List WordPart) (words : List (List WordPart)) : List (List WordPart) :=
  if word = [] then words else word :: words

/-- The words of a line, behind `word` and with `skip` characters that have been read. The line
has none if it is not one simple command of words without expansions outside double quotes. -/
def readWords : (skip : ℕ) → (word : List WordPart) → List Char → Option (List (List WordPart))
  | _, word, [] => some (endWord word [])
  | skip + 1, word, _ :: cs => readWords skip word cs
  | 0, word, c :: cs =>
    if c ∈ blanks then (readWords 0 [] cs).map (endWord word)
    else if c = '"' then
      match readQuoted sh .inside cs with
      | .closed text _ => readWords (text.length + 1) (word ++ [.quoted text]) cs
      | _ => none
    else if c = '\'' then
      if '\'' ∈ cs then
        readWords (cs.idxOf '\'' + 1) (word ++ [.single (cs.takeWhile (· ≠ '\''))]) cs
      else none
    else if c = '\\' then
      match cs with
      | [] => none
      | d :: _ => readWords 1 (if d = '\n' then word else word ++ [.escaped d]) cs
    -- a comment
    else if c = '#' ∧ word = [] then if '\n' ∈ cs then none else some []
    else if c ∈ specials then none
    else readWords 0 (word ++ [.plain c]) cs

/-! ### Reading a command -/

/-- The characters that are more to the reader than a part of a word. -/
def notPlain : List Char := blanks ++ specials ++ ['"', '\'', '\\', '#']

/-- A character of a word that is not quoted. -/
def isWordChar (c : Char) : Bool := c ∉ notPlain

section command

variable {sh}

theorem isWordChar_of {p : Char → Bool} (hp : notPlain.all (!p ·) = true) {c : Char}
    (h : p c = true) : isWordChar c = true :=
  decide_eq_true (notMem_of_all_not hp h)

theorem readWords_skip (text cs : List Char) (word : List WordPart) :
    readWords sh text.length word (text ++ cs) = readWords sh 0 word cs := by
  induction text with
  | nil => rfl
  | cons c text ih => exact ih

theorem readWords_blank (word : List WordPart) (cs : List Char) :
    readWords sh 0 word (' ' :: cs) = (readWords sh 0 [] cs).map (endWord word) := rfl

theorem readWords_plain {c : Char} (h : isWordChar c = true) (word : List WordPart)
    (cs : List Char) :
    readWords sh 0 word (c :: cs) = readWords sh 0 (word ++ [.plain c]) cs := by
  simp only [isWordChar, notPlain, List.mem_append, List.mem_cons, List.not_mem_nil, or_false,
    not_or, decide_eq_true_eq] at h
  obtain ⟨⟨hblank, hspecial⟩, hquote, happ, hback, hhash⟩ := h
  simp [readWords, hblank, hspecial, hquote, happ, hback, hhash]

theorem readWords_plain_append {w : List Char} (h : w.all isWordChar = true)
    (word : List WordPart) (cs : List Char) :
    readWords sh 0 word (w ++ cs) = readWords sh 0 (word ++ w.map .plain) cs := by
  induction w generalizing word with
  | nil => simp
  | cons c w ih =>
    rw [List.all_cons, Bool.and_eq_true] at h
    rw [List.cons_append, readWords_plain h.1, ih h.2]
    simp

/-- A word without quotes in front of a blank. -/
theorem readWords_word {w : List Char} (hne : w ≠ []) (h : w.all isWordChar = true)
    (cs : List Char) :
    readWords sh 0 [] (w ++ ' ' :: cs) = (readWords sh 0 [] cs).map (w.map .plain :: ·) := by
  rw [readWords_plain_append h, List.nil_append, readWords_blank]
  congr
  funext words
  rw [endWord, if_neg (by simpa using hne)]

/-- What has been read of a word stays in it. -/
theorem readWords_extends {skip : ℕ} {word : List WordPart} {cs : List Char}
    {words : List (List WordPart)} (hword : word ≠ [])
    (h : readWords sh skip word cs = some words) :
    ∃ more words', words = (word ++ more) :: words' := by
  induction cs generalizing skip word with
  | nil =>
    rw [readWords, endWord, if_neg hword] at h
    cases h
    exact ⟨[], [], by simp⟩
  | cons c cs ih =>
    have hpart : ∀ {skip' part}, readWords sh skip' (word ++ [part]) cs = some words →
        ∃ more words', words = (word ++ more) :: words' := by
      intro skip' part hrest
      have ⟨more, words', heq⟩ := ih (by simp) hrest
      exact ⟨part :: more, words', by simpa using heq⟩
    cases skip with
    | succ skip => exact ih hword h
    | zero =>
      rw [readWords.eq_def] at h
      dsimp only at h
      split at h
      · have ⟨later, _, heq⟩ := Option.map_eq_some_iff.mp h
        rw [endWord, if_neg hword] at heq
        exact ⟨[], later, by simpa using heq.symm⟩
      split at h
      · split at h
        · exact hpart h
        · exact absurd h nofun
      split at h
      · split at h
        · exact hpart h
        · exact absurd h nofun
      split at h
      · split at h
        · exact absurd h nofun
        split at h
        · exact ih hword h
        · exact hpart h
      split at h
      · rename_i hcomment
        exact absurd hcomment.2 hword
      split at h
      · exact absurd h nofun
      · exact hpart h

/-- The last word of a line, in double quotes. -/
theorem readWords_quoted {text : List Char} :
    readWords sh 0 [] ('"' :: (text ++ '"' :: [' '])) = some [[.quoted text]]
      ↔ readQuoted sh .inside (text ++ '"' :: [' ']) = .closed text [' '] := by
  have hread : readWords sh 0 [] ('"' :: (text ++ '"' :: [' ']))
      = match readQuoted sh .inside (text ++ '"' :: [' ']) with
        | .closed text' _ =>
          readWords sh (text'.length + 1) [.quoted text'] (text ++ '"' :: [' '])
        | _ => none := rfl
  rw [hread]
  cases h : readQuoted sh .inside (text ++ '"' :: [' ']) with
  | inside => exact iff_of_false nofun nofun
  | broken => exact iff_of_false nofun nofun
  | closed text' rest =>
    show readWords sh (text'.length + 1) [.quoted text'] (text ++ '"' :: [' ']) = _ ↔ _
    constructor
    · intro hwords
      have ⟨more, words', heq⟩ := readWords_extends (List.cons_ne_nil _ _) hwords
      have htext : text = text' := by
        injection heq with hfirst
        injection hfirst with hpart
        injection hpart
      rw [← htext] at h ⊢
      have hline := eq_of_readQuoted_closed h
      rw [List.append_cancel_left_eq, List.cons.injEq] at hline
      rw [hline.2]
    · intro heq
      rw [(QuoteEnd.closed.inj heq).1]
      have hskip := @readWords_skip sh (text ++ ['"']) [' '] [.quoted text]
      rw [List.length_append, List.append_assoc] at hskip
      exact hskip

/-- A command line: words, and a last one between double quotes. -/
def quotedCommand (words : List (List Char)) (text : List Char) : List Char :=
  words.flatMap (· ++ [' ']) ++ ' ' :: '"' :: (text ++ '"' :: [' '])

theorem quotedCommand_inj {words : List (List Char)} {text text' : List Char}
    (h : quotedCommand words text = quotedCommand words text') : text = text' := by
  have htail := List.append_cancel_left h
  exact List.append_cancel_right (List.cons.inj (List.cons.inj htail).2).2

theorem readWords_words {words : List (List Char)}
    (h : ∀ w ∈ words, w ≠ [] ∧ w.all isWordChar = true) (cs : List Char) :
    readWords sh 0 [] (words.flatMap (· ++ [' ']) ++ cs)
      = (readWords sh 0 [] cs).map (words.map (·.map .plain) ++ ·) := by
  induction words with
  | nil => simp
  | cons w words ih =>
    have ⟨hne, hw⟩ := h w List.mem_cons_self
    rw [List.flatMap_cons, List.append_assoc, List.append_assoc, List.singleton_append,
      readWords_word hne hw, ih fun w' hw' => h w' (List.mem_cons_of_mem _ hw'), Option.map_map]
    rfl

/-- The command line is read as the words it was made of if and only if the text can stand
between double quotes. -/
theorem readWords_quotedCommand {words : List (List Char)} {before text after : List Char}
    (hwords : ∀ w ∈ words, w ≠ [] ∧ w.all isWordChar = true)
    (hbefore : before.all isLiteral = true) (hafter : (' ' :: after).all isLiteral = true) :
    readWords sh 0 [] (quotedCommand words (before ++ (text ++ ' ' :: after)))
        = some (words.map (·.map .plain) ++ [[.quoted (before ++ (text ++ ' ' :: after))]])
      ↔ StaysQuoted sh text := by
  rw [← @readQuoted_around sh _ text _ [' '] hbefore hafter (noClosing_literal (by decide))]
  have hassoc : before ++ (text ++ ' ' :: (after ++ '"' :: [' ']))
      = before ++ (text ++ ' ' :: after) ++ '"' :: [' '] := by simp
  rw [hassoc]
  generalize before ++ (text ++ ' ' :: after) = param
  rw [← readWords_quoted, quotedCommand, readWords_words hwords, readWords_blank, Option.map_map]
  cases readWords sh 0 [] ('"' :: (param ++ '"' :: [' '])) with
  | none => simp
  | some ws => simp [endWord]

end command

end reader

/-! ## A shell without operators -/

/-- The characters of a name. -/
def isName (c : Char) : Bool := c.isAlphanum || c = '_'

/-- The end of a name in braces. -/
def nameEnd : List Char → Option ℕ
  | [] => none
  | c :: cs =>
    if c = '}' then some 1 else if isName c then (nameEnd cs).map (· + 1) else none

theorem nameEnd_eq_some_iff {cs : List Char} {n : ℕ} :
    nameEnd cs = some n ↔
      ∃ name rest, name.all isName = true ∧ cs = name ++ ['}'] ++ rest ∧
        n = (name ++ ['}']).length := by
  induction cs generalizing n with
  | nil => simp [nameEnd]
  | cons c cs ih =>
    rw [nameEnd]
    by_cases hc : c = '}'
    · rw [if_pos hc, Option.some.injEq]
      constructor
      · rintro rfl
        exact ⟨[], cs, rfl, by simp [hc], rfl⟩
      · rintro ⟨name, rest, hname, hcs, rfl⟩
        cases name with
        | nil => rfl
        | cons d name =>
          have hd : d = '}' := (List.cons.inj hcs).1.symm.trans hc
          rw [List.all_cons, hd] at hname
          exact absurd hname nofun
    · rw [if_neg hc, Option.ite_none_right_eq_some, Option.map_eq_some_iff]
      constructor
      · rintro ⟨hname, m, hm, rfl⟩
        have ⟨name, rest, hall, hcs, hlength⟩ := ih.mp hm
        exact ⟨c :: name, rest, by simp [hname, hall], by simp [hcs], by simp [hlength]⟩
      · rintro ⟨name, rest, hall, hcs, rfl⟩
        cases name with
        | nil => exact absurd (List.cons.inj hcs).1 hc
        | cons d name =>
          have ⟨hd, hcs'⟩ := List.cons.inj hcs
          rw [List.all_cons, Bool.and_eq_true] at hall
          exact ⟨hd ▸ hall.1, _, ih.mpr ⟨name, rest, hall.2, hcs', rfl⟩, by simp⟩

/-- The shell of the expansions `${name}`; it takes every other one for a command. -/
def Shell.names : Shell where
  span
    | .brace, cs => if cs.head? = some '}' then none else nameEnd cs
    | .arithmetic, _ => none
  closed := by
    intro o cs n h
    cases o with
    | arithmetic => exact absurd h nofun
    | brace =>
      rw [Option.ite_none_left_eq_some] at h
      have ⟨name, rest, _, hcs, hn⟩ := nameEnd_eq_some_iff.mp h.2
      exact ⟨name, rest, hcs, hn⟩
  upTo := by
    intro o text rest h rest'
    cases o with
    | arithmetic => exact absurd h nofun
    | brace =>
      simp only [Option.ite_none_left_eq_some] at h ⊢
      have ⟨name, more, hall, hcs, hlength⟩ := nameEnd_eq_some_iff.mp h.2
      have ⟨htext, _⟩ := List.append_inj hcs hlength
      refine ⟨?_, nameEnd_eq_some_iff.mpr ⟨name, rest', hall, by rw [htext], hlength⟩⟩
      rw [htext] at h ⊢
      cases name with
      | nil => exact absurd rfl h.1
      | cons c name => exact h.1

example : StaysQuoted .names "a;${name}".toList := by decide
example : ¬StaysQuoted .names "a$(reboot)".toList := by decide

end ShellWords
end IpApps
