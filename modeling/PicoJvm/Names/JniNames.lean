import Mathlib.Data.List.TakeWhile
import PicoJvm.Loading.ClassName
import PicoJvm.Names.ModifiedUtf8

/-!
# Names of native functions

The name of the function of a native method is put together from the names of its class and of the
method, and from its parameters where the method is overloaded. What is no letter or digit is
escaped.
-/

namespace PicoJvm.Names

open PicoJvm.Loading (isLetter isLetterOrDigit letterDigitTable)

/-! ## The source -/

/-- The code of `/`. -/
def slashCode : Nat := 0x2F

/-- `HEX_DIGIT`. -/
def hexDigit (digit : Nat) : Nat :=
  if digit < 10 then 0x30 + digit else 0x61 + (digit - 10)

def IsAlphanumeric (chr : Nat) : Prop :=
  (0x41 ≤ chr ∧ chr ≤ 0x5A) ∨ (0x61 ≤ chr ∧ chr ≤ 0x7A) ∨ (0x30 ≤ chr ∧ chr ≤ 0x39)

instance (chr : Nat) : Decidable (IsAlphanumeric chr) :=
  inferInstanceAs (Decidable (_ ∨ _))

/-- What stands behind the underscore of an escaped character. -/
def escapeTail (chr : Nat) : List Nat :=
  if chr = slashCode then
    []
  else if chr = 0x5F then
    [0x31]
  else if chr = 0x3B then
    [0x32]
  else if chr = 0x5B then
    [0x33]
  else
    [0x30, hexDigit (chr / 4096 % 16), hexDigit (chr / 256 % 16), hexDigit (chr / 16 % 16),
      hexDigit (chr % 16)]

/-- One round of the loop of `append_jni`. -/
def escape (chr : Nat) : List Nat :=
  if IsAlphanumeric chr then [chr] else 0x5F :: escapeTail chr

/-- The characters `append_jni` goes over: `skip` are left out, and `endChar` ends them. -/
def appended (characters : List Nat) (skip endChar : Nat) : List Nat :=
  (characters.drop skip).takeWhile fun chr => decide (chr ≠ endChar)

/-- A symbol: its bytes, or the length of an encoded signature and what it is printed as. -/
inductive JniSymbol
  | plain (bytes : List UInt8)
  | methodSignature (encodedLength : Nat) (decoded : List UInt8)
  deriving DecidableEq, Repr

namespace JniSymbol

/-- `length()`. -/
def length : JniSymbol → Nat
  | .plain bytes => bytes.length
  | .methodSignature encodedLength _ => encodedLength

/-- The bytes the stream goes over. A decoded signature stands in an array of 1024 bytes and ends
with a null. -/
def streamed : JniSymbol → List UInt8
  | .plain bytes => bytes
  | .methodSignature _ decoded => (decoded.take 1023).takeWhile fun byte => decide (byte ≠ 0)

/-- `new_string` of the stream, empty where the bytes are invalid. -/
def characters (symbol : JniSymbol) : List Nat :=
  match (Utf8Stream.within [] symbol.streamed []).decode with
  | .ok (_, chrs) => chrs
  | .error _ => []

end JniSymbol

/-- `append_jni`. -/
def appendJni (symbol : JniSymbol) (skip endChar : Nat) : List Nat :=
  (appended symbol.characters skip endChar).flatMap escape

/-- The length of the array that is allocated. -/
def bufferLength (className methodName : JniSymbol) (signature : Option JniSymbol) : Nat :=
  (className.length + methodName.length + (signature.map JniSymbol.length).getD 0) * 4 + 8 + 1

/-- `convert_to_jni_name`, without the null at its end. -/
def convertToJniName (className methodName : JniSymbol) (signature : Option JniSymbol) : List Nat :=
  [0x4A, 0x61, 0x76, 0x61, 0x5F] ++ appendJni className 0 0 ++ [0x5F] ++ appendJni methodName 0 0 ++
    match signature with
    | none => []
    | some signature => [0x5F, 0x5F] ++ appendJni signature 1 0x29

/-! ## Escaped characters -/

/-- The digits that follow the underscore of an escape. -/
def IsEscapeDigit (chr : Nat) : Prop :=
  0x30 ≤ chr ∧ chr ≤ 0x33

/-- What follows each slash. -/
def SlashesBefore (ok : Option Nat → Prop) : List Nat → Prop
  | [] => True
  | chr :: rest => (chr = slashCode → ok rest.head?) ∧ SlashesBefore ok rest

/-- A character, neither a slash nor a digit of an escape. -/
def StartsPart (next : Option Nat) : Prop :=
  ∃ chr, next = some chr ∧ chr ≠ slashCode ∧ ¬ IsEscapeDigit chr

/-- No digit of an escape. -/
def NoEscape (next : Option Nat) : Prop :=
  ∀ chr, next = some chr → ¬ IsEscapeDigit chr

theorem hexDigit_inj
    {digit digit' : Nat}
    (fits : digit < 16)
    (fits' : digit' < 16)
    (same : hexDigit digit = hexDigit digit') :
    digit = digit' := by
  unfold hexDigit at same
  split at same <;> split at same <;> omega

theorem escapeTail_slash : escapeTail slashCode = [] := by
  decide

/-- What stands for a character that is no slash. -/
inductive EscapedAs : Nat → List Nat → Prop
  | underscore : EscapedAs 0x5F [0x31]
  | semicolon : EscapedAs 0x3B [0x32]
  | bracket : EscapedAs 0x5B [0x33]
  | hex (chr : Nat) :
      EscapedAs chr [0x30, hexDigit (chr / 4096 % 16), hexDigit (chr / 256 % 16),
        hexDigit (chr / 16 % 16), hexDigit (chr % 16)]

theorem escapedAs_escapeTail
    {chr : Nat}
    (notSlash : chr ≠ slashCode) :
    EscapedAs chr (escapeTail chr) := by
  rw [escapeTail, if_neg notSlash]
  split
  · next isUnderscore =>
      rw [isUnderscore]
      exact .underscore
  · split
    · next isSemicolon =>
        rw [isSemicolon]
        exact .semicolon
    · split
      · next isBracket =>
          rw [isBracket]
          exact .bracket
      · exact .hex chr

/-- Behind every underscore but that of a slash there is a digit. -/
theorem EscapedAs.digit
    {chr : Nat}
    {tail : List Nat}
    (escaped : EscapedAs chr tail) :
    ∃ digit hex, tail = digit :: hex ∧ IsEscapeDigit digit := by
  unfold IsEscapeDigit
  cases escaped with
  | underscore => exact ⟨0x31, [], rfl, by decide⟩
  | semicolon => exact ⟨0x32, [], rfl, by decide⟩
  | bracket => exact ⟨0x33, [], rfl, by decide⟩
  | hex chr => exact ⟨0x30, _, rfl, by decide⟩

/-- The digits tell the characters apart. -/
theorem EscapedAs.append_inj
    {chr chr' : Nat}
    {tail tail' behind behind' : List Nat}
    (escaped : EscapedAs chr tail)
    (escaped' : EscapedAs chr' tail')
    (bound : chr < 65536)
    (bound' : chr' < 65536)
    (same : tail ++ behind = tail' ++ behind') :
    chr = chr' ∧ behind = behind' := by
  cases escaped with
  | underscore =>
      cases escaped' <;> simp at same
      exact ⟨rfl, same⟩
  | semicolon =>
      cases escaped' <;> simp at same
      exact ⟨rfl, same⟩
  | bracket =>
      cases escaped' <;> simp at same
      exact ⟨rfl, same⟩
  | hex chr =>
      cases escaped' <;> simp at same
      obtain ⟨first, second, third, fourth, sameBehind⟩ := same
      have first := hexDigit_inj (Nat.mod_lt _ (by decide)) (Nat.mod_lt _ (by decide)) first
      have second := hexDigit_inj (Nat.mod_lt _ (by decide)) (Nat.mod_lt _ (by decide)) second
      have third := hexDigit_inj (Nat.mod_lt _ (by decide)) (Nat.mod_lt _ (by decide)) third
      have fourth := hexDigit_inj (Nat.mod_lt _ (by decide)) (Nat.mod_lt _ (by decide)) fourth
      exact ⟨by omega, sameBehind⟩

/-- Where the text goes on as it may, the escape of a character can be told from the rest. -/
theorem escapeTail_append_inj
    {chr chr' : Nat}
    {behind behind' : List Nat}
    (bound : chr < 65536)
    (bound' : chr' < 65536)
    (noEscape : chr = slashCode → NoEscape behind.head?)
    (noEscape' : chr' = slashCode → NoEscape behind'.head?)
    (same : escapeTail chr ++ behind = escapeTail chr' ++ behind') :
    chr = chr' ∧ behind = behind' := by
  by_cases isSlash : chr = slashCode
  · by_cases isSlash' : chr' = slashCode
    · rw [isSlash, isSlash'] at same ⊢
      rw [escapeTail_slash, List.nil_append, List.nil_append] at same
      exact ⟨rfl, same⟩
    · obtain ⟨digit, tail, isTail, isDigit⟩ := (escapedAs_escapeTail isSlash').digit
      rw [isSlash, escapeTail_slash, List.nil_append, isTail, List.cons_append] at same
      exact absurd isDigit (noEscape isSlash digit (by rw [same]; rfl))
  · by_cases isSlash' : chr' = slashCode
    · obtain ⟨digit, tail, isTail, isDigit⟩ := (escapedAs_escapeTail isSlash).digit
      rw [isSlash', escapeTail_slash, List.nil_append, isTail, List.cons_append] at same
      exact absurd isDigit (noEscape' isSlash' digit (by rw [← same]; rfl))
    · exact (escapedAs_escapeTail isSlash).append_inj (escapedAs_escapeTail isSlash') bound bound'
        same

/-- The first byte of an escaped text is a digit of an escape exactly when its first character
is. -/
theorem noEscape_flatMap_escape
    {text : List Nat}
    (noEscape : NoEscape text.head?) :
    NoEscape (text.flatMap escape).head? := by
  cases text with
  | nil =>
      exact noEscape
  | cons chr rest =>
      intro byte isHead
      rw [List.flatMap_cons, escape] at isHead
      split at isHead
      · cases isHead
        exact noEscape _ rfl
      · cases isHead
        unfold IsEscapeDigit
        decide

/-- A text whose slashes are not followed by digits of escapes can be read back. -/
theorem flatMap_escape_inj
    {text text' : List Nat}
    (bounded : ∀ chr ∈ text, chr < 65536)
    (bounded' : ∀ chr ∈ text', chr < 65536)
    (slashes : SlashesBefore NoEscape text)
    (slashes' : SlashesBefore NoEscape text')
    (same : text.flatMap escape = text'.flatMap escape) :
    text = text' := by
  induction text generalizing text' with
  | nil =>
      cases text' with
      | nil =>
          rfl
      | cons chr' rest' =>
          rw [List.flatMap_cons, List.flatMap_nil, escape] at same
          split at same
          · cases same
          · cases same
  | cons chr rest inductionHypothesis =>
      cases text' with
      | nil =>
          rw [List.flatMap_cons, List.flatMap_nil, escape] at same
          split at same
          · cases same
          · cases same
      | cons chr' rest' =>
          obtain ⟨isBounded, areBounded⟩ := List.forall_mem_cons.mp bounded
          obtain ⟨isBounded', areBounded'⟩ := List.forall_mem_cons.mp bounded'
          have both : chr = chr' ∧ rest.flatMap escape = rest'.flatMap escape := by
            rw [List.flatMap_cons, List.flatMap_cons, escape, escape] at same
            split at same
            · split at same
              · injection same with sameChr sameRest
                exact ⟨sameChr, sameRest⟩
              · next isLetter _ =>
                  injection same with sameChr _
                  rw [sameChr] at isLetter
                  exact absurd isLetter (by decide)
            · split at same
              · next isLetter' =>
                  injection same with sameChr _
                  rw [← sameChr] at isLetter'
                  exact absurd isLetter' (by decide)
              · injection same with _ sameTail
                exact escapeTail_append_inj isBounded isBounded'
                  (fun isSlash => noEscape_flatMap_escape (slashes.1 isSlash))
                  (fun isSlash' => noEscape_flatMap_escape (slashes'.1 isSlash')) sameTail
          rw [both.1, inductionHypothesis areBounded areBounded' slashes.2 slashes'.2 both.2]

/-! ## The parts of a name -/

theorem StartsPart.noEscape
    {next : Option Nat}
    (starts : StartsPart next) :
    NoEscape next := by
  obtain ⟨chr, isNext, _, notDigit⟩ := starts
  intro chr' isNext'
  rw [isNext] at isNext'
  cases isNext'
  exact notDigit

/-- A part with slashes only between other characters. -/
theorem slashesBefore_append
    {ok : Option Nat → Prop}
    (allowed : ∀ next, StartsPart next → ok next)
    {front behind : List Nat}
    (apart : SlashesBefore StartsPart front)
    (slashes : SlashesBefore ok behind) :
    SlashesBefore ok (front ++ behind) := by
  induction front with
  | nil =>
      exact slashes
  | cons chr rest inductionHypothesis =>
      refine ⟨fun isSlash => ?_, inductionHypothesis apart.2⟩
      have starts := apart.1 isSlash
      obtain ⟨next, isNext, _⟩ := id starts
      cases rest with
      | nil =>
          cases isNext
      | cons next rest =>
          exact allowed _ starts

theorem slashesBefore_of_notMem
    {ok : Option Nat → Prop}
    {text : List Nat}
    (noSlash : slashCode ∉ text) :
    SlashesBefore ok text := by
  induction text with
  | nil =>
      trivial
  | cons chr rest inductionHypothesis =>
      rw [List.mem_cons, not_or] at noSlash
      exact ⟨fun isSlash => absurd isSlash.symm noSlash.1, inductionHypothesis noSlash.2⟩

/-- What follows a slash within a part. -/
theorem startsPart_of_append
    {front behind : List Nat}
    (apart : SlashesBefore StartsPart (front ++ slashCode :: behind)) :
    StartsPart behind.head? := by
  induction front with
  | nil =>
      exact apart.1 rfl
  | cons chr rest inductionHypothesis =>
      exact inductionHypothesis apart.2

/-- Two slashes and what follows them. -/
def doubleSlash (parameters : Option (List Nat)) : List Nat :=
  match parameters with
  | none => []
  | some parameters => slashCode :: slashCode :: parameters

theorem doubleSlash_inj
    {parameters parameters' : Option (List Nat)}
    (same : doubleSlash parameters = doubleSlash parameters') :
    parameters = parameters' := by
  cases parameters with
  | none =>
      cases parameters' with
      | none => rfl
      | some parameters' => cases same
  | some parameters =>
      cases parameters' with
      | none => cases same
      | some parameters' =>
          injection same with _ same
          injection same with _ same
          rw [same]

/-- A part does not go on into two slashes. -/
theorem eq_nil_of_doubleSlash
    {text more behind : List Nat}
    {parameters : Option (List Nat)}
    (apart : SlashesBefore StartsPart (text ++ more))
    (same : doubleSlash parameters = more ++ behind) :
    more = [] := by
  cases more with
  | nil =>
      rfl
  | cons chr more =>
      cases parameters with
      | none =>
          cases same
      | some parameters =>
          injection same with isSlash isMore
          rw [← isSlash] at apart
          obtain ⟨next, isNext, notSlash, _⟩ := startsPart_of_append apart
          cases more with
          | nil =>
              cases isNext
          | cons second more =>
              injection isMore with isSecond _
              cases isNext
              exact absurd isSecond.symm notSlash

/-- The text in front of two slashes, and the one behind them. -/
theorem append_doubleSlash_inj
    {text text' : List Nat}
    {parameters parameters' : Option (List Nat)}
    (apart : SlashesBefore StartsPart text)
    (apart' : SlashesBefore StartsPart text')
    (same : text ++ doubleSlash parameters = text' ++ doubleSlash parameters') :
    text = text' ∧ parameters = parameters' := by
  obtain ⟨more, isText', behind⟩ | ⟨more, isText, behind⟩ := List.append_eq_append_iff.mp same
  · rw [isText'] at apart'
    have nothing := eq_nil_of_doubleSlash apart' behind
    rw [nothing, List.append_nil] at isText'
    rw [nothing, List.nil_append] at behind
    exact ⟨isText'.symm, doubleSlash_inj behind⟩
  · rw [isText] at apart
    have nothing := eq_nil_of_doubleSlash apart behind
    rw [nothing, List.append_nil] at isText
    rw [nothing, List.nil_append] at behind
    exact ⟨isText, (doubleSlash_inj behind).symm⟩

/-- A text up to its last slash, and the one behind it. -/
theorem append_slash_inj
    {front front' last last' : List Nat}
    (noSlash : slashCode ∉ last)
    (noSlash' : slashCode ∉ last')
    (same : front ++ slashCode :: last = front' ++ slashCode :: last') :
    front = front' ∧ last = last' := by
  obtain ⟨more, isFront', behind⟩ | ⟨more, isFront, behind⟩ := List.append_eq_append_iff.mp same
  · cases more with
    | nil =>
        rw [List.append_nil] at isFront'
        injection behind with _ sameLast
        exact ⟨isFront'.symm, sameLast⟩
    | cons chr more =>
        injection behind with _ isLast
        rw [isLast] at noSlash
        exact absurd (List.mem_append_right more List.mem_cons_self) noSlash
  · cases more with
    | nil =>
        rw [List.append_nil] at isFront
        injection behind with _ sameLast
        exact ⟨isFront, sameLast.symm⟩
    | cons chr more =>
        injection behind with _ isLast
        rw [isLast] at noSlash'
        exact absurd (List.mem_append_right more List.mem_cons_self) noSlash'

/-! ## Valid names -/

/-- A letter, and letters and digits. -/
def IsUnicodeIdentifier (text : List Nat) : Prop :=
  ∃ first rest, text = first :: rest ∧ isLetter first = true ∧
    ∀ chr ∈ rest, isLetterOrDigit chr = true

/-- Identifiers with single slashes between them. -/
inductive IsUnicodeClassName : List Nat → Prop
  | simple {text : List Nat} : IsUnicodeIdentifier text → IsUnicodeClassName text
  | qualified {first rest : List Nat} :
      IsUnicodeIdentifier first → IsUnicodeClassName rest →
      IsUnicodeClassName (first ++ slashCode :: rest)

/-- An identifier, `<init>` or `<clinit>`. -/
def IsUnicodeMethodName (text : List Nat) : Prop :=
  IsUnicodeIdentifier text ∨ text = [0x3C, 0x69, 0x6E, 0x69, 0x74, 0x3E] ∨
    text = [0x3C, 0x63, 0x6C, 0x69, 0x6E, 0x69, 0x74, 0x3E]

/-- The types of parameters: basic ones, classes and arrays. -/
inductive IsParameters : List Nat → Prop
  | nil : IsParameters []
  | basic {type : Nat} {rest : List Nat} :
      type ∈ [0x42, 0x43, 0x44, 0x46, 0x49, 0x4A, 0x53, 0x5A] → IsParameters rest →
      IsParameters (type :: rest)
  | object {className rest : List Nat} :
      IsUnicodeClassName className → IsParameters rest →
      IsParameters (0x4C :: className ++ 0x3B :: rest)
  | array {type : Nat} {rest : List Nat} :
      IsParameters (type :: rest) → IsParameters (0x5B :: type :: rest)

/-- What holds of every character of a valid name. -/
structure IsPart (text : List Nat) : Prop where
  starts : text ≠ [] → StartsPart text.head?
  apart : SlashesBefore StartsPart text
  plain : ∀ chr ∈ text, chr ≠ 0 ∧ chr ≠ 0x29

theorem isLetterOrDigit_of_isLetter
    {chr : Nat}
    (letter : isLetter chr = true) :
    isLetterOrDigit chr = true := by
  unfold isLetter at letter
  unfold isLetterOrDigit
  simp only [decide_eq_true_eq] at letter ⊢
  omega

theorem IsUnicodeIdentifier.all
    {text : List Nat}
    (isIdentifier : IsUnicodeIdentifier text) :
    ∀ chr ∈ text, isLetterOrDigit chr = true := by
  obtain ⟨first, rest, isText, letter, others⟩ := isIdentifier
  rw [isText]
  exact List.forall_mem_cons.mpr ⟨isLetterOrDigit_of_isLetter letter, others⟩

theorem isLetterOrDigit_ne
    {chr other : Nat}
    (isChr : isLetterOrDigit chr = true)
    (notOther : isLetterOrDigit other = false) :
    chr ≠ other := by
  intro same
  rw [same, notOther] at isChr
  cases isChr

theorem IsUnicodeIdentifier.noSlash
    {text : List Nat}
    (isIdentifier : IsUnicodeIdentifier text) :
    slashCode ∉ text :=
  fun found => isLetterOrDigit_ne (isIdentifier.all slashCode found) (by decide) rfl

theorem startsPart_of_isLetter
    {chr : Nat}
    (letter : isLetter chr = true) :
    StartsPart (some chr) := by
  refine ⟨chr, rfl, isLetterOrDigit_ne (isLetterOrDigit_of_isLetter letter) (by decide), ?_⟩
  intro isDigit
  unfold isLetter letterDigitTable at letter
  unfold IsEscapeDigit at isDigit
  simp only [decide_eq_true_eq] at letter
  split at letter <;> omega

theorem IsUnicodeIdentifier.isPart
    {text : List Nat}
    (isIdentifier : IsUnicodeIdentifier text) :
    IsPart text := by
  refine ⟨fun _ => ?_, slashesBefore_of_notMem isIdentifier.noSlash, fun chr found => ?_⟩
  · obtain ⟨first, rest, isText, letter, _⟩ := isIdentifier
    rw [isText]
    exact startsPart_of_isLetter letter
  · have isChr := isIdentifier.all chr found
    exact ⟨isLetterOrDigit_ne isChr (by decide), isLetterOrDigit_ne isChr (by decide)⟩

theorem IsUnicodeIdentifier.ne_nil
    {text : List Nat}
    (isIdentifier : IsUnicodeIdentifier text) :
    text ≠ [] := by
  obtain ⟨first, rest, isText, _⟩ := isIdentifier
  rw [isText]
  exact List.cons_ne_nil first rest

theorem IsUnicodeClassName.ne_nil
    {text : List Nat}
    (isClassName : IsUnicodeClassName text) :
    text ≠ [] := by
  cases isClassName with
  | simple isIdentifier => exact isIdentifier.ne_nil
  | qualified isFirst _ => exact List.append_ne_nil_of_left_ne_nil isFirst.ne_nil _

theorem IsUnicodeClassName.isPart
    {text : List Nat}
    (isClassName : IsUnicodeClassName text) :
    IsPart text := by
  induction isClassName with
  | simple isIdentifier =>
      exact isIdentifier.isPart
  | qualified isFirst isRest inductionHypothesis =>
      have firstPart := isFirst.isPart
      refine ⟨fun _ => ?_, ?_, ?_⟩
      · rw [List.head?_append_of_ne_nil _ isFirst.ne_nil]
        exact firstPart.starts isFirst.ne_nil
      · exact slashesBefore_append (fun _ starts => starts) firstPart.apart
          ⟨fun _ => inductionHypothesis.starts isRest.ne_nil, inductionHypothesis.apart⟩
      · exact List.forall_mem_append.mpr ⟨firstPart.plain,
          List.forall_mem_cons.mpr ⟨by decide, inductionHypothesis.plain⟩⟩

/-- The characters of method names other than letters and digits are escaped as well. -/
theorem IsUnicodeMethodName.isPart
    {text : List Nat}
    (isMethodName : IsUnicodeMethodName text) :
    IsPart text ∧ slashCode ∉ text ∧ text ≠ [] := by
  obtain isIdentifier | isSpecial := isMethodName
  · exact ⟨isIdentifier.isPart, isIdentifier.noSlash, isIdentifier.ne_nil⟩
  · have noSlash : slashCode ∉ text := by
      obtain isText | isText := isSpecial <;> rw [isText] <;> decide
    have starts : text.head? = some 0x3C := by
      obtain isText | isText := isSpecial <;> rw [isText] <;> rfl
    have plain : ∀ chr ∈ text, chr ≠ 0 ∧ chr ≠ 0x29 := by
      obtain isText | isText := isSpecial <;> rw [isText] <;> decide
    refine ⟨⟨fun _ => ?_, slashesBefore_of_notMem noSlash, plain⟩, noSlash, ?_⟩
    · rw [starts]
      exact ⟨0x3C, rfl, by decide, by unfold IsEscapeDigit; decide⟩
    · intro isNil
      rw [isNil] at starts
      cases starts

/-- A character in front of a part that is no slash. -/
theorem IsPart.cons
    {chr : Nat}
    {text : List Nat}
    (isPart : IsPart text)
    (starts : StartsPart (some chr))
    (plain : chr ≠ 0 ∧ chr ≠ 0x29) :
    IsPart (chr :: text) := by
  obtain ⟨chr', isChr, notSlash, _⟩ := id starts
  cases isChr
  exact ⟨fun _ => starts, ⟨fun isSlash => absurd isSlash notSlash, isPart.apart⟩,
    List.forall_mem_cons.mpr ⟨plain, isPart.plain⟩⟩

theorem startsPart_of_le
    {chr : Nat}
    (behind : 0x34 ≤ chr) :
    StartsPart (some chr) := by
  refine ⟨chr, rfl, ?_, ?_⟩
  · unfold slashCode
    omega
  · unfold IsEscapeDigit
    omega

theorem IsParameters.isPart
    {text : List Nat}
    (isParameters : IsParameters text) :
    IsPart text := by
  induction isParameters with
  | nil =>
      exact ⟨fun isNil => absurd rfl isNil, trivial, List.forall_mem_nil _⟩
  | basic isType _ inductionHypothesis =>
      have behind : ∀ type ∈ [0x42, 0x43, 0x44, 0x46, 0x49, 0x4A, 0x53, 0x5A], 0x34 ≤ type := by
        decide
      have above := behind _ isType
      exact inductionHypothesis.cons (startsPart_of_le above) ⟨by omega, by omega⟩
  | object isClassName areRest inductionHypothesis =>
      rename_i className rest
      have classPart := isClassName.isPart
      have behindClass := inductionHypothesis.cons (startsPart_of_le (by decide : 0x34 ≤ 0x3B))
        (by decide)
      have together : IsPart (className ++ 0x3B :: rest) := by
        refine ⟨fun _ => ?_, ?_, ?_⟩
        · rw [List.head?_append_of_ne_nil _ isClassName.ne_nil]
          exact classPart.starts isClassName.ne_nil
        · exact slashesBefore_append (fun _ starts => starts) classPart.apart behindClass.apart
        · exact List.forall_mem_append.mpr ⟨classPart.plain, behindClass.plain⟩
      exact together.cons (startsPart_of_le (by decide : 0x34 ≤ 0x4C)) (by decide)
  | array _ inductionHypothesis =>
      exact inductionHypothesis.cons (startsPart_of_le (by decide : 0x34 ≤ 0x5B)) (by decide)

/-! ## Whole names -/

/-- The parameters of a signature, if there is one. -/
inductive HasParameters : Option JniSymbol → Option (List Nat) → Prop
  | none : HasParameters none none
  | some {signature : JniSymbol} {parameters returned : List Nat} :
      signature.characters = 0x28 :: parameters ++ 0x29 :: returned → IsParameters parameters →
      HasParameters (some signature) (some parameters)

/-- The names of a class and of a method, and its parameters if a signature is given. -/
structure IsNativeMethod (className methodName : JniSymbol) (signature : Option JniSymbol)
    (parameters : Option (List Nat)) : Prop where
  isClassName : IsUnicodeClassName className.characters
  isMethodName : IsUnicodeMethodName methodName.characters
  hasParameters : HasParameters signature parameters

theorem JniSymbol.characters_bound
    (symbol : JniSymbol) :
    ∀ chr ∈ symbol.characters, chr < 65536 := by
  rw [characters]
  split
  · next decoded =>
      exact (Utf8Stream.decodes_of_decode _ decoded).bound
  · exact List.forall_mem_nil _

theorem appended_all
    {text : List Nat}
    (plain : ∀ chr ∈ text, chr ≠ 0 ∧ chr ≠ 0x29) :
    appended text 0 0 = text := by
  rw [appended, List.drop_zero, List.takeWhile_eq_self_iff]
  intro chr found
  exact decide_eq_true (plain chr found).1

theorem appended_parameters
    {parameters returned : List Nat}
    (plain : ∀ chr ∈ parameters, chr ≠ 0 ∧ chr ≠ 0x29) :
    appended (0x28 :: parameters ++ 0x29 :: returned) 1 0x29 = parameters := by
  have inside : ∀ chr ∈ parameters, decide (chr ≠ 0x29) = true :=
    fun chr found => decide_eq_true (plain chr found).2
  rw [appended, List.cons_append, List.drop_succ_cons, List.drop_zero,
    List.takeWhile_append_of_pos inside]
  simp

variable {className methodName className' methodName' : JniSymbol}
  {signature signature' : Option JniSymbol} {parameters parameters' : Option (List Nat)}

/-- The text of a whole name, before it is escaped. -/
def wholeText (className methodName : JniSymbol) (parameters : Option (List Nat)) : List Nat :=
  (className.characters ++ slashCode :: methodName.characters) ++ doubleSlash parameters

theorem convertToJniName_eq
    (isMethod : IsNativeMethod className methodName signature parameters) :
    convertToJniName className methodName signature =
      [0x4A, 0x61, 0x76, 0x61, 0x5F] ++
        (wholeText className methodName parameters).flatMap escape := by
  have classPart := isMethod.isClassName.isPart
  have methodPart := isMethod.isMethodName.isPart.1
  have isSlash : escape slashCode = [0x5F] := by decide
  rw [convertToJniName.eq_def, appendJni, appended_all classPart.plain, appendJni,
    appended_all methodPart.plain, wholeText]
  cases isMethod.hasParameters with
  | none =>
      simp [doubleSlash, isSlash]
  | some isSignature isParameters =>
      dsimp only
      rw [appendJni, isSignature, appended_parameters isParameters.isPart.plain]
      simp [doubleSlash, isSlash]

theorem HasParameters.isPart
    (hasParameters : HasParameters signature parameters) :
    (∀ chr ∈ doubleSlash parameters, chr < 65536) ∧ SlashesBefore NoEscape (doubleSlash parameters) := by
  cases hasParameters with
  | none =>
      exact ⟨List.forall_mem_nil _, trivial⟩
  | some isSignature isParameters =>
      rename_i signature parameters returned
      have isPart := isParameters.isPart
      constructor
      · intro chr found
        have bounded := signature.characters_bound
        rw [isSignature] at bounded
        rw [doubleSlash, List.mem_cons, List.mem_cons] at found
        obtain isSlash | isSlash | inside := found
        · rw [isSlash]
          decide
        · rw [isSlash]
          decide
        · exact bounded chr (List.mem_append_left _ (List.mem_cons_of_mem _ inside))
      · refine ⟨fun _ chr isHead => ?_, fun _ => ?_, ?_⟩
        · cases isHead
          unfold IsEscapeDigit
          decide
        · by_cases isNil : parameters = []
          · rw [isNil]
            intro chr isHead
            cases isHead
          · exact (isPart.starts isNil).noEscape
        · have atEnd : SlashesBefore NoEscape [] := trivial
          have apart := slashesBefore_append (fun _ => StartsPart.noEscape) isPart.apart atEnd
          rwa [List.append_nil] at apart

/-- The class and the method are parts with a slash between them. -/
theorem IsNativeMethod.apart
    (isMethod : IsNativeMethod className methodName signature parameters) :
    SlashesBefore StartsPart (className.characters ++ slashCode :: methodName.characters) := by
  obtain ⟨methodPart, _, notNil⟩ := isMethod.isMethodName.isPart
  exact slashesBefore_append (fun _ starts => starts) isMethod.isClassName.isPart.apart
    ⟨fun _ => methodPart.starts notNil, methodPart.apart⟩

theorem IsNativeMethod.wholeText_bound
    (isMethod : IsNativeMethod className methodName signature parameters) :
    ∀ chr ∈ wholeText className methodName parameters, chr < 65536 := by
  have behind : ∀ chr ∈ slashCode :: methodName.characters, chr < 65536 :=
    List.forall_mem_cons.mpr ⟨by decide, methodName.characters_bound⟩
  exact List.forall_mem_append.mpr
    ⟨List.forall_mem_append.mpr ⟨className.characters_bound, behind⟩,
      isMethod.hasParameters.isPart.1⟩

/-- The name gives back the class, the method and, where it has them, the parameters. -/
theorem convertToJniName_inj
    (isMethod : IsNativeMethod className methodName signature parameters)
    (isMethod' : IsNativeMethod className' methodName' signature' parameters')
    (same : convertToJniName className methodName signature =
      convertToJniName className' methodName' signature') :
    className.characters = className'.characters ∧
      methodName.characters = methodName'.characters ∧ parameters = parameters' := by
  rw [convertToJniName_eq isMethod, convertToJniName_eq isMethod'] at same
  have escaped := List.append_cancel_left same
  have sameText := flatMap_escape_inj isMethod.wholeText_bound isMethod'.wholeText_bound
    (slashesBefore_append (fun _ => StartsPart.noEscape) isMethod.apart
      isMethod.hasParameters.isPart.2)
    (slashesBefore_append (fun _ => StartsPart.noEscape) isMethod'.apart
      isMethod'.hasParameters.isPart.2) escaped
  obtain ⟨sameFront, sameParameters⟩ :=
    append_doubleSlash_inj isMethod.apart isMethod'.apart sameText
  obtain ⟨sameClass, sameMethod⟩ := append_slash_inj isMethod.isMethodName.isPart.2.1
    isMethod'.isMethodName.isPart.2.1 sameFront
  exact ⟨sameClass, sameMethod, sameParameters⟩

/-- The class `A`, and its method `f`. -/
def classA : JniSymbol :=
  .plain [0x41]

def methodF : JniSymbol :=
  .plain [0x66]

/-- No parameters, and a result of some type. -/
def noParameters (returned : UInt8) : JniSymbol :=
  .methodSignature 3 [0x28, 0x29, returned]

theorem methodF_isNativeMethod
    (returned : UInt8)
    (isCharacters : (noParameters returned).characters = [0x28, 0x29, returned.toNat]) :
    IsNativeMethod classA methodF (some (noParameters returned)) (some []) := by
  have isSignature : (noParameters returned).characters =
      0x28 :: [] ++ 0x29 :: [returned.toNat] := isCharacters
  refine ⟨.simple ⟨0x41, [], ?_, ?_, List.forall_mem_nil _⟩,
    Or.inl ⟨0x66, [], ?_, ?_, List.forall_mem_nil _⟩, .some isSignature .nil⟩
  · decide
  · decide
  · decide
  · decide

theorem convertToJniName_inj_methodF :
    classA.characters = classA.characters ∧ methodF.characters = methodF.characters ∧
      some ([] : List Nat) = some [] :=
  convertToJniName_inj (methodF_isNativeMethod 0x49 (by decide))
    (methodF_isNativeMethod 0x56 (by decide)) (by decide)

/-- The class `$$$`. -/
def dollars : JniSymbol :=
  .plain [0x24, 0x24, 0x24]

/-- The type of the result is left out, and a character in six bytes may not find room. -/
theorem convertToJniName_methodF :
    (convertToJniName classA methodF (some (noParameters 0x49)) =
        convertToJniName classA methodF (some (noParameters 0x56)) ∧
      noParameters 0x49 ≠ noParameters 0x56) ∧
    bufferLength dollars methodF none < (convertToJniName dollars methodF none).length + 1 := by
  decide

end PicoJvm.Names
