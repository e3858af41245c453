import Walkthrough.Proofs.Scanning
import Walkthrough.Proofs.Spelling

/-!
# What a text consists of

A text that is cut into tokens consists of their spellings in turn and of the gaps between
them. A gap has nothing but blanks, line breaks, comments and continued lines. Each token stands
at the place that the text before its spelling tells: its line is counted by the line breaks
there, its column by the characters after the last of them.
-/

namespace Walkthrough

namespace Location

/-- The place that follows a text: on the line after as many as it has line breaks, behind the
characters after the last line break. -/
def following (before : List Char) : Location :=
  ⟨before.count '\n' + 1, (before.reverse.takeWhile (· != '\n')).length + 1⟩

/-- A character more moves on the place that follows. -/
theorem following_concat (before : List Char) (c : Char) :
    following (before ++ [c]) = (following before).after c := by
  unfold following after
  by_cases hbreak : c = '\n'
  · subst hbreak
    simp
  · rw [if_neg hbreak]
    simp [hbreak]

/-- The place after a stretch of text follows the text before it and the stretch. -/
theorem afterAll_following (before stretch : List Char) :
    (following before).afterAll stretch = following (before ++ stretch) := by
  induction stretch generalizing before with
  | nil => rw [afterAll_nil, List.append_nil]
  | cons c cs ih => rw [afterAll_cons, ← following_concat, ih, List.append_assoc]; rfl

end Location

namespace Decimal

/-- The mark of a power of ten: none, or a letter with an optional sign and digits. -/
inductive PowerMark : List Char → Int → Prop
  | none : PowerMark [] 0
  | plain {letter : Char} {digits : List Char} (hletter : letter = 'e' ∨ letter = 'E')
    (hdigits : AllDigits digits) (hsome : digits ≠ []) :
    PowerMark (letter :: digits) (ofDigits digits)
  | positive {letter : Char} {digits : List Char} (hletter : letter = 'e' ∨ letter = 'E')
    (hdigits : AllDigits digits) (hsome : digits ≠ []) :
    PowerMark (letter :: '+' :: digits) (ofDigits digits)
  | negative {letter : Char} {digits : List Char} (hletter : letter = 'e' ∨ letter = 'E')
    (hdigits : AllDigits digits) (hsome : digits ≠ []) :
    PowerMark (letter :: '-' :: digits) (-(ofDigits digits : Int))

/-- A text writes a decimal: digits with an optional point among or beside them, and the mark of a
power of ten. -/
inductive Written : List Char → Decimal → Prop
  | whole {digits mark : List Char} {power : Int} (hdigits : AllDigits digits)
    (hsome : digits ≠ []) (hmark : PowerMark mark power) :
    Written (digits ++ mark) ⟨ofDigits digits, power⟩
  | pointed {digits fraction mark : List Char} {power : Int} (hdigits : AllDigits digits)
    (hfraction : AllDigits fraction) (hsome : digits ≠ [] ∨ fraction ≠ [])
    (hmark : PowerMark mark power) :
    Written (digits ++ '.' :: fraction ++ mark)
      ⟨ofDigits (digits ++ fraction), power - fraction.length⟩

/-- Digits that are taken are digits. -/
theorem allDigits_takeWhile (text : List Char) : AllDigits (text.takeWhile Char.isDigit) :=
  fun _ hc => List.mem_takeWhile_imp hc

/-- What is read as a number of digits is some digits. -/
theorem magnitude_eq_some {digits : List Char} {n : Nat}
    (h : readExponent.magnitude digits = some n) :
    AllDigits digits ∧ digits ≠ [] ∧ n = ofDigits digits := by
  unfold readExponent.magnitude at h
  split at h
  · next hdigits =>
    cases h
    exact ⟨fun c hc => List.all_eq_true.mp hdigits.2 c hc, hdigits.1, rfl⟩
  · cases h

/-- What is read after the letter of a power is the rest of its mark. -/
theorem powerMark_readExponent {letter : Char} (hletter : letter = 'e' ∨ letter = 'E')
    {text : List Char} {power : Int} (h : readExponent text = some power) :
    PowerMark (letter :: text) power := by
  unfold readExponent at h
  split at h
  · cases hn : readExponent.magnitude _ with
    | none => rw [hn] at h; cases h
    | some n =>
      rw [hn] at h
      cases h
      obtain ⟨hdigits, hsome, rfl⟩ := magnitude_eq_some hn
      exact .negative hletter hdigits hsome
  · obtain ⟨n, hn, rfl⟩ := Option.map_eq_some_iff.mp h
    obtain ⟨hdigits, hsome, rfl⟩ := magnitude_eq_some hn
    exact .positive hletter hdigits hsome
  · obtain ⟨n, hn, rfl⟩ := Option.map_eq_some_iff.mp h
    obtain ⟨hdigits, hsome, rfl⟩ := magnitude_eq_some hn
    exact .plain hletter hdigits hsome

/-- The end of what is read as a decimal is the mark of a power, which scales the digits before
it. -/
theorem powerMark_scaled {text : List Char} {coefficient places : Nat} {d : Decimal}
    (h : (match text with
      | [] => some (Decimal.mk coefficient (0 - places))
      | letter :: exponent =>
        if letter = 'e' ∨ letter = 'E' then
          (readExponent exponent).map fun power => ⟨coefficient, power - places⟩
        else none) = some d) :
    ∃ power, PowerMark text power ∧ d = ⟨coefficient, power - places⟩ := by
  split at h
  · cases h
    exact ⟨0, .none, rfl⟩
  · split at h
    · next hletter =>
      obtain ⟨power, hpower, rfl⟩ := Option.map_eq_some_iff.mp h
      exact ⟨power, powerMark_readExponent hletter hpower, rfl⟩
    · cases h

/-- What is read as a decimal writes it. -/
theorem written_read {text : List Char} {d : Decimal} (h : read text = some d) :
    Written text d := by
  have htext := List.takeWhile_append_dropWhile (p := Char.isDigit) (l := text)
  have hwhole := allDigits_takeWhile text
  unfold read at h
  dsimp only at h
  split at h
  · next rest hrest =>
    dsimp only at h
    split at h
    · cases h
    · next hnone =>
      obtain ⟨power, hmark, rfl⟩ := powerMark_scaled h
      have hfraction := List.takeWhile_append_dropWhile (p := Char.isDigit) (l := rest)
      have hwritten :=
        Written.pointed hwhole (allDigits_takeWhile rest) (not_and_or.mp hnone) hmark
      rwa [List.append_assoc, List.cons_append, hfraction, ← hrest, htext] at hwritten
  · dsimp only at h
    split at h
    · cases h
    · next hnone =>
      obtain ⟨power, hmark, rfl⟩ := powerMark_scaled h
      have hsome : text.takeWhile Char.isDigit ≠ [] := fun heq => hnone ⟨heq, rfl⟩
      have hwritten := Written.whole hwhole hsome hmark
      rwa [htext, ← List.append_nil (text.takeWhile Char.isDigit), ← Int.sub_zero power]
        at hwritten

end Decimal

namespace Token

/-- Some characters spell a token: a reserved word, a mark or a name as it is, a whole number by
its digits, and a double by a decimal next to it that has more than digits. Underscores may stand
after the first character of a number. -/
inductive SpelledBy : Token → List Char → Prop
  | keyword (word : Keyword) : SpelledBy (.keyword word) word.text.toList
  | symbol (mark : Symbol) : SpelledBy (.symbol mark) mark.text.toList
  | name {text : String} (hname : isName text = true) : SpelledBy (.name text) text.toList
  | int {n : Int64} {c : Char} {cs : List Char} (hfirst : c.isDigit = true)
    (hdigits : ∀ d ∈ cs, d.isDigit = true ∨ d = '_')
    (hvalue : n.toInt = Decimal.ofDigits ((c :: cs).filter (· != '_'))) :
    SpelledBy (.int n) (c :: cs)
  | float {d : Decimal} {c : Char} {cs : List Char} (hfirst : c.isDigit = true ∨ c = '.')
    (hmarked : ∃ d ∈ c :: cs, d ≠ '_' ∧ d.isDigit = false)
    (hwritten : Decimal.Written ((c :: cs).filter (· != '_')) d) :
    SpelledBy (.float (d.toBinary64 false)) (c :: cs)

/-- A number is spelled by the characters it was read from. -/
theorem spelledBy_ofNumber {c : Char} {cs rest : List Char} {t : Token}
    (hstarts : startsNumber c rest = true) (h : ofNumber (c :: cs) = .ok t) :
    t.SpelledBy (c :: cs) := by
  have hfirst : c.isDigit = true ∨ c = '.' := by
    simp only [startsNumber, Bool.or_eq_true, Bool.and_eq_true, beq_iff_eq] at hstarts
    exact hstarts.imp_right And.left
  unfold ofNumber at h
  dsimp only at h
  split at h
  · next hdigits =>
    have hall : ∀ d ∈ c :: cs, d = '_' ∨ d.isDigit = true := by
      simpa using hdigits
    split at h
    · next hsmall =>
      cases h
      have hdigit : c.isDigit = true := by
        rcases hfirst with hdigit | rfl
        · exact hdigit
        · exact (hall '.' List.mem_cons_self).resolve_left (by decide)
      exact .int hdigit (fun d hd => (hall d (List.mem_cons_of_mem c hd)).symm)
        (Int64.toInt_ofNat_of_lt hsmall)
    · cases h
  · next hmarked =>
    have hother : ∃ d ∈ c :: cs, d ≠ '_' ∧ d.isDigit = false := by
      rw [List.all_eq_true] at hmarked
      simpa [-List.mem_cons, and_assoc] using hmarked
    split at h
    · next d hread =>
      cases h
      exact .float hfirst hother (Decimal.written_read hread)
    · cases h

/-- A word is spelled by the characters it was read from. -/
theorem spelledBy_ofWord {c : Char} {cs : List Char} (hfirst : startsName c = true)
    (hothers : ∀ d ∈ cs, continuesName d = true) : (ofWord (c :: cs)).SpelledBy (c :: cs) := by
  unfold ofWord
  dsimp only
  split
  · next word hword =>
    have htext : word.text = String.ofList (c :: cs) := by
      simpa using List.find?_some hword
    have hspelled := SpelledBy.keyword word
    rwa [htext, String.toList_ofList] at hspelled
  · next hnone =>
    have hname : isName (String.ofList (c :: cs)) = true := by
      unfold isName
      rw [String.toList_ofList]
      simp only [hfirst, hnone, Bool.true_and, Option.isNone_none, Bool.and_true]
      exact List.all_eq_true.mpr hothers
    have hspelled := SpelledBy.name hname
    rwa [String.toList_ofList] at hspelled

/-- A token that is read is spelled by the characters it was read from. -/
theorem spelledBy_read {c : Char} {rest : List Char} {r : Reading} (h : read c rest = .ok r) :
    r.token.SpelledBy r.spelling := by
  unfold read at h
  split at h
  · next hnumber =>
    obtain ⟨token, htoken, rfl⟩ := except_map_ok.mp h
    exact spelledBy_ofNumber hnumber htoken
  · split at h
    · next hname =>
      cases h
      exact spelledBy_ofWord hname fun _ hd => List.mem_takeWhile_imp hd
    · split at h
      · cases h
      · split at h
        · next mark hmark =>
          obtain ⟨after, hafter⟩ := symbolAt?_spelled hmark
          cases h
          dsimp only
          rw [hafter, ← String.length_toList, List.take_left]
          exact .symbol mark
        · cases h

/-- A spelling starts with a character that is no line break. -/
theorem SpelledBy.exists_cons {t : Token} {spelling : List Char} (h : t.SpelledBy spelling) :
    ∃ c cs, spelling = c :: cs ∧ c ≠ '\n' := by
  cases h with
  | keyword word => cases word <;> exact ⟨_, _, rfl, by decide⟩
  | symbol mark => cases mark <;> exact ⟨_, _, rfl, by decide⟩
  | @name text hname =>
    unfold isName at hname
    cases htext : text.toList with
    | nil => rw [htext] at hname; cases hname
    | cons c cs =>
      refine ⟨c, cs, rfl, ?_⟩
      rintro rfl
      rw [htext] at hname
      cases hname
  | int hfirst _ _ =>
    refine ⟨_, _, rfl, ?_⟩
    rintro rfl
    cases hfirst
  | float hfirst _ _ =>
    refine ⟨_, _, rfl, ?_⟩
    rintro rfl
    rcases hfirst with hfirst | hfirst <;> cases hfirst

end Token

namespace Lexeme

/-- What may stand between tokens: blanks, line breaks, comments with the end of their line, and
backslashes at the end of a line. -/
inductive Gap : List Char → Prop
  | nothing : Gap []
  | blank {c : Char} {rest : List Char} (hblank : c ∈ [' ', '\t', '\r', '\n']) (others : Gap rest) :
    Gap (c :: rest)
  | comment {text rest : List Char} (hline : '\n' ∉ text) (others : Gap rest) :
    Gap ('#' :: text ++ '\n' :: rest)
  | continuation {rest : List Char} (others : Gap rest) : Gap ('\\' :: '\n' :: rest)

/-- What may stand after the last token: a gap, and a comment that ends with the text. -/
def Trailing (text : List Char) : Prop :=
  Gap text ∨ ∃ gap comment, text = gap ++ '#' :: comment ∧ Gap gap ∧ '\n' ∉ comment

/-- From somewhere in a text on, it consists of the spellings of some tokens with gaps before
them. Each token stands at the place that follows the text before its spelling. -/
inductive Consists : List Char → List Char → List Lexeme → Prop
  | done {before tail : List Char} (htail : Trailing tail) : Consists before tail []
  | token {before gap spelling rest : List Char} {t : Token} {ts : List Lexeme} (hgap : Gap gap)
    (hspelled : t.SpelledBy spelling) (others : Consists (before ++ gap ++ spelling) rest ts) :
    Consists before (gap ++ (spelling ++ rest))
      (⟨t, Location.following (before ++ gap)⟩ :: ts)

/-- Blanks of a line are a gap with a gap after them. -/
theorem Gap.blanks {blanks gap : List Char} (hblanks : ∀ c ∈ blanks, isBlank c = true)
    (h : Gap gap) : Gap (blanks ++ gap) := by
  induction blanks with
  | nil => exact h
  | cons c cs ih =>
    have hblank : c ∈ [' ', '\t', '\r', '\n'] := by
      have hc := hblanks c List.mem_cons_self
      simp only [isBlank, Bool.or_eq_true, beq_iff_eq] at hc
      simp only [List.mem_cons, List.not_mem_nil, or_false]
      tauto
    exact .blank hblank (ih fun d hd => hblanks d (List.mem_cons_of_mem c hd))

/-- A line break is a gap with a gap after it. -/
theorem Gap.lineBreak {gap : List Char} (h : Gap gap) : Gap ('\n' :: gap) :=
  .blank (by decide) h

/-- What follows a line break at the start of a gap is a gap. -/
theorem Gap.of_lineBreak {gap : List Char} (h : Gap ('\n' :: gap)) : Gap gap := by
  cases h with
  | blank _ others => exact others

/-- A comment before a gap is a gap with it if the gap starts with the end of the line. -/
theorem Gap.afterComment {comment gap : List Char} (hcomment : '\n' ∉ comment)
    (h : Gap ('\n' :: gap)) : Gap ('#' :: comment ++ '\n' :: gap) :=
  .comment hcomment h.of_lineBreak

/-- A comment up to the end of its line may stand before what may stand after the last token. -/
theorem Trailing.afterComment {comment rest : List Char} (hcomment : '\n' ∉ comment)
    (hrest : AtLineEnd rest) (h : Trailing rest) : Trailing ('#' :: comment ++ rest) := by
  cases rest with
  | nil => exact .inr ⟨[], comment, List.append_nil _, .nothing, hcomment⟩
  | cons c rest =>
    obtain rfl := hrest c rfl
    rcases h with hgap | ⟨gap, last, heq, hgap, hlast⟩
    · exact .inl (hgap.afterComment hcomment)
    · cases gap with
      | nil => cases heq
      | cons c gap =>
        rw [List.cons_append] at heq
        obtain ⟨rfl, rfl⟩ := List.cons.inj heq
        refine .inr ⟨'#' :: comment ++ '\n' :: gap, last, ?_, hgap.afterComment hcomment, hlast⟩
        simp only [List.append_assoc, List.cons_append]

/-- What makes a gap of every gap after it may be passed over. -/
theorem Consists.skip {skipped before rest : List Char} {ts : List Lexeme}
    (hskipped : ∀ gap, Gap gap → Gap (skipped ++ gap))
    (h : Consists (before ++ skipped) rest ts) : Consists before (skipped ++ rest) ts := by
  cases h with
  | done htail =>
    rcases htail with hgap | ⟨gap, comment, rfl, hgap, hcomment⟩
    · exact .done (.inl (hskipped _ hgap))
    · exact .done (.inr ⟨skipped ++ gap, comment, (List.append_assoc ..).symm, hskipped _ hgap,
        hcomment⟩)
  | token hgap hspelled others =>
    rw [List.append_assoc before] at others ⊢
    rw [← List.append_assoc skipped]
    exact .token (hskipped _ hgap) hspelled others

/-- A comment up to the end of its line may be passed over. -/
theorem Consists.skipComment {comment before rest : List Char} {ts : List Lexeme}
    (hcomment : '\n' ∉ comment) (hrest : AtLineEnd rest)
    (h : Consists (before ++ '#' :: comment) rest ts) :
    Consists before ('#' :: comment ++ rest) ts := by
  cases h with
  | done htail => exact .done (htail.afterComment hcomment hrest)
  | @token _ gap spelling after t ts hgap hspelled others =>
    cases gap with
    | nil =>
      obtain ⟨c, cs, rfl, hc⟩ := hspelled.exists_cons
      exact absurd (hrest c rfl) hc
    | cons c gap =>
      obtain rfl := hrest c rfl
      rw [List.append_assoc before] at others ⊢
      rw [← List.append_assoc ('#' :: comment)]
      exact .token (hgap.afterComment hcomment) hspelled others

/-- A scanner at the place that the text before it tells leaves nothing out: the text that is left
consists of its tokens. -/
theorem consists_tokens (s : Scanner) : ∀ {before : List Char} {ts : List Lexeme},
    s.place = Location.following before → s.tokens = .ok ts →
      Consists before s.text (written ts) := by
  induction s using Scanner.induction with
  | ends s result hends =>
    intro before ts hplace htokens
    rw [hends.tokens_eq] at htokens
    cases hends with
    | @blank place blocks blanks hblanks =>
      cases htokens
      rw [written_closing]
      have hgap := Gap.blanks hblanks .nothing
      rw [List.append_nil] at hgap
      exact .done (.inl hgap)
    | unindent => cases htokens
    | finished =>
      cases htokens
      rw [written_closing]
      exact .done (.inl .nothing)
    | unreadable => cases htokens
  | step s marks s' hstep ih =>
    intro before ts hplace htokens
    rw [hstep.tokens_eq] at htokens
    obtain ⟨others, hothers, rfl⟩ := except_map_ok.mp htokens
    have hmoved : ∀ passed, s'.place = s.place.afterAll passed →
        Consists (before ++ passed) s'.text (written others) := by
      intro passed hpassed
      refine ih ?_ hothers
      rw [hpassed, hplace, Location.afterAll_following]
    rw [written_append]
    cases hstep with
    | @emptyLine place blocks blanks rest hblanks =>
      have hrest := hmoved (blanks ++ ['\n']) rfl
      rw [List.append_cons]
      refine hrest.skip fun gap hgap => ?_
      rw [List.append_assoc]
      exact .blanks hblanks hgap.lineBreak
    | @commentLine place blocks blanks comment rest hblanks hcomment hline =>
      have hrest := hmoved (blanks ++ '#' :: comment) rfl
      rw [← List.append_assoc] at hrest
      exact (hrest.skipComment hcomment hline).skip fun _ => .blanks hblanks
    | @indentation place blocks nested blanks rest c marks hblanks _ hlayout =>
      rw [written_layout hlayout]
      exact (hmoved blanks rfl).skip fun _ => .blanks hblanks
    | @blank parens lineOpen place blocks c rest hblank =>
      have hblanks : ∀ d ∈ [c], isBlank d = true := by simpa using hblank
      exact (hmoved [c] rfl).skip fun _ => .blanks hblanks
    | @comment parens lineOpen place blocks comment rest hcomment hline =>
      exact (hmoved ('#' :: comment) rfl).skipComment hcomment hline
    | @lineBreak lineOpen place blocks rest =>
      have hmark : written (if lineOpen then [⟨.newline, place⟩] else []) = [] := by
        cases lineOpen <;> rfl
      rw [hmark]
      exact (hmoved ['\n'] rfl).skip fun _ => .lineBreak
    | innerBreak => exact (hmoved ['\n'] rfl).skip fun _ => .lineBreak
    | continuation => exact (hmoved ['\\', '\n'] rfl).skip fun _ => .continuation
    | @token parens lineOpen place blocks c rest reading _ _ hread =>
      obtain ⟨hwritten, cs, hspelling, hrest⟩ := Token.read_ok hread
      have htext : c :: rest = reading.spelling ++ reading.rest := by
        rw [hspelling, List.cons_append, hrest]
      have hrest := hmoved reading.spelling rfl
      rw [← List.append_nil before] at hrest
      have htoken := Consists.token .nothing (Token.spelledBy_read hread) hrest
      rw [List.append_nil, ← hplace, List.nil_append, ← htext] at htoken
      rwa [written_cons hwritten]

/-- Each token of a text that consists of tokens stands at the place that follows the text before
its spelling. -/
theorem Consists.exists_spelling {before text : List Char} {ts : List Lexeme}
    (h : Consists before text ts) {t : Lexeme} (ht : t ∈ ts) :
    ∃ passed spelling after, before ++ text = passed ++ (spelling ++ after) ∧
      t.location = Location.following passed ∧ t.token.SpelledBy spelling := by
  induction h with
  | done => cases ht
  | @token before gap spelling rest token ts hgap hspelled others ih =>
    rcases List.mem_cons.mp ht with rfl | hlater
    · exact ⟨before ++ gap, spelling, rest, (List.append_assoc ..).symm, rfl, hspelled⟩
    · obtain ⟨passed, found, after, heq, hplace, hfound⟩ := ih hlater
      refine ⟨passed, found, after, ?_, hplace, hfound⟩
      rw [← heq, List.append_assoc, List.append_assoc]

/-- The tokens of a text that are written in it stand at their spellings, one after the other, and
the text consists of these spellings with gaps before them. -/
theorem scan_consists {text : String} {ts : List Lexeme} (h : scan text = .ok ts) :
    (∀ t ∈ written ts, ∃ before spelling after,
      text.toList = before ++ (spelling ++ after) ∧ t.location = Location.following before ∧
        t.token.SpelledBy spelling) ∧
    (written ts).Pairwise (fun t t' => t.location.Before t'.location) ∧
    Consists [] text.toList (written ts) := by
  have hconsists : Consists [] text.toList (written ts) :=
    consists_tokens ⟨.start, .origin, [], text.toList⟩ rfl h
  exact ⟨fun _ => hconsists.exists_spelling, (stands_scan h).ordered.2, hconsists⟩

/-- A call over two lines with a comment between them, and a continued line. -/
def Sample.spread : String :=
  "f(1_0, # not )\n\t .5e-1)\r\n\nin_ = \\\n-2 # last"

/-- The tokens of the call and of the continued line. -/
def Sample.spreadTokens : List Lexeme :=
  [⟨.name "f", ⟨1, 1⟩⟩, ⟨.symbol .leftParen, ⟨1, 2⟩⟩, ⟨.int 10, ⟨1, 3⟩⟩, ⟨.symbol .comma, ⟨1, 6⟩⟩,
    ⟨.float ((Decimal.mk 5 (-2)).toBinary64 false), ⟨2, 3⟩⟩, ⟨.symbol .rightParen, ⟨2, 8⟩⟩,
    ⟨.newline, ⟨2, 10⟩⟩, ⟨.name "in_", ⟨4, 1⟩⟩, ⟨.symbol .assign, ⟨4, 5⟩⟩, ⟨.symbol .minus, ⟨5, 1⟩⟩,
    ⟨.int 2, ⟨5, 2⟩⟩, ⟨.newline, ⟨5, 10⟩⟩, ⟨.endOfFile, ⟨5, 10⟩⟩]

theorem spread_consists :
    scan Sample.spread = .ok Sample.spreadTokens ∧
      Consists [] Sample.spread.toList (written Sample.spreadTokens) := by
  have hscan : scan Sample.spread = .ok Sample.spreadTokens := by decide +kernel
  exact ⟨hscan, (scan_consists hscan).2.2⟩

end Lexeme

end Walkthrough
