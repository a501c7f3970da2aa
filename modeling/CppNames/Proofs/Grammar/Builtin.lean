import CppNames.Grammar.Parse
import CppNames.Proofs.Grammar.Specifier

namespace CppNames

/-!
# Keywords of builtin types

A builtin type is spelled by keywords in any order and number, and `const`, `volatile` and storage
classes may stand between them.  Four things matter of the keywords: the last base, the last sign,
whether `short` is among them, and how many `long`s there are, of which none, one and several are
told apart.  `Spelling` is these four things as they are seen in a list of keywords, and
`Spelling.type` is the type that they stand for.

The parser sees the keywords one after the other and keeps what it saw in a record, which counts the
`long`s in one byte.  As long as the count fits, the record agrees with the list, and the two loops
that read such keywords, in front of a declarator and in front of a cast, answer the type of the
spelling.  The `long` that does not fit any more is where both of them stop, so such a list has no
type at all.  `countedType?` is the whole law.
-/

namespace Token.Kind

/-- Whether the keyword tells a sign. -/
def isSign : Kind → Bool
  | .kwSigned | .kwUnsigned => true
  | _ => false

/-- Whether the keyword is a base, to which signs and lengths are added. -/
def isBase : Kind → Bool
  | .kwBool | .kwChar | .kwWChar | .kwInt | .kwFloat | .kwDouble | .kwVoid => true
  | _ => false

/-- Whether the keyword goes into the specifiers of a declaration whatever stands beside it. -/
def isPlainSpecifier (kind : Kind) : Bool :=
  kind.isBuiltinType || kind.isCvQualifier || (kind.isDeclSpecifier && kind != .kwTypedef)

theorem isCvQualifier_of_isBuiltinType {kind : Kind} (builtin : kind.isBuiltinType = true) :
    kind.isCvQualifier = false := by
  cases kind <;> first | rfl | cases builtin

end Token.Kind

namespace Grammar

open Token.Kind (isBase isSign isBuiltinType)

/-! ## Spellings -/

/-- How many `long`s are written, as far as types are told apart by it. -/
inductive Longs where
  | none | one | several
  deriving DecidableEq, Repr

/-- A number of `long`s. -/
def Longs.ofCount : Nat → Longs
  | 0 => none
  | 1 => one
  | _ + 2 => several

/-- What the keywords of a builtin type say. -/
structure Spelling where
  base : Option Token.Kind
  sign : Option Token.Kind
  short : Bool
  longs : Longs
  deriving DecidableEq, Repr

namespace Spelling

/-- What some keywords say: the last base, the last sign, `short` and the number of `long`s. -/
def ofKinds (kinds : List Token.Kind) : Spelling where
  base := kinds.reverse.find? isBase
  sign := kinds.reverse.find? isSign
  short := kinds.contains .kwShort
  longs := .ofCount (kinds.count .kwLong)

/-- The letter of the type without its sign. -/
def letter (spelling : Spelling) : Char :=
  match spelling.base, spelling.short, spelling.longs with
  | some .kwBool, _, _ => 'b'
  | some .kwChar, _, _ => 'c'
  | some .kwWChar, _, _ => 'w'
  | some .kwFloat, _, _ => 'f'
  | some .kwVoid, _, _ => 'v'
  | some .kwDouble, _, .none => 'd'
  | some .kwDouble, _, _ => 'r'
  | _, true, _ => 's'
  | _, false, .none => 'i'
  | _, false, .one => 'l'
  | _, false, .several => 'j'

/-- The type.  Only `char` differs from `signed char`. -/
def type (spelling : Spelling) : Encoding :=
  if spelling.sign = some .kwUnsigned then .builtin 'U' ++ .builtin spelling.letter
  else if spelling.sign = some .kwSigned ∧ spelling.letter = 'c' then .builtin 'S' ++ .builtin 'c'
  else .builtin spelling.letter

end Spelling

/-- The type that some keywords spell, where one byte can count the `long`s among them. -/
def countedType? (kinds : List Token.Kind) : Option Encoding :=
  if kinds.count .kwLong < capacity 8 then some (Spelling.ofKinds kinds).type else none

/-! ## Counting one after the other -/

namespace BuiltinWords

/-- The words with some more keywords, however many there are. -/
def withAll (words : BuiltinWords) (kinds : List Token.Kind) : BuiltinWords where
  base := (kinds.reverse.find? isBase).or words.base
  sign := (kinds.reverse.find? isSign).or words.sign
  short := words.short || kinds.contains .kwShort
  longs := words.longs + kinds.count .kwLong
  any := words.any || !kinds.isEmpty

theorem withAll_nil (words : BuiltinWords) : words.withAll [] = words := by
  rcases words with ⟨base, sign, short, longs, any⟩
  simp [withAll]

theorem withAll_cons (words : BuiltinWords) (kind : Token.Kind) (kinds : List Token.Kind) :
    words.withAll (kind :: kinds) = (words.withAll [kind]).withAll kinds := by
  simp [withAll, Option.or_assoc, Bool.or_assoc, List.count_cons, Nat.add_comm, Nat.add_left_comm]

/-- One more keyword is one more member of the list, if the `long`s can be counted. -/
theorem add?_eq (words : BuiltinWords) {kind : Token.Kind} (builtin : kind.isBuiltinType = true)
    (few : words.longs < capacity 8) :
    words.add? kind =
      if words.longs + [kind].count .kwLong < capacity 8 then some (words.withAll [kind])
      else none := by
  rcases words with ⟨base, sign, short, longs, any⟩
  cases kind <;> first
    | exact absurd builtin Bool.false_ne_true
    | simp_all [add?, withAll, isBase, isSign]

theorem foldlM_add? (words : BuiltinWords) {kinds : List Token.Kind}
    (builtin : ∀ kind ∈ kinds, kind.isBuiltinType = true) (few : words.longs < capacity 8) :
    kinds.foldlM add? words =
      if words.longs + kinds.count .kwLong < capacity 8 then some (words.withAll kinds)
      else none := by
  induction kinds generalizing words with
  | nil =>
    rw [withAll_nil]
    exact (if_pos few).symm
  | cons kind rest ih =>
    rcases List.forall_mem_cons.mp builtin with ⟨first, others⟩
    have sum : (kind :: rest).count .kwLong = [kind].count .kwLong + rest.count .kwLong := by
      rw [← List.count_append]
      rfl
    rw [List.foldlM_cons, add?_eq words first few, withAll_cons words kind rest, sum,
      ← Nat.add_assoc]
    by_cases fits : words.longs + [kind].count .kwLong < capacity 8
    · rw [if_pos fits]
      exact ih (words.withAll [kind]) others fits
    · rw [if_neg fits, if_neg fun more => fits (by omega)]
      rfl

theorem ofKinds?_eq {kinds : List Token.Kind}
    (builtin : ∀ kind ∈ kinds, kind.isBuiltinType = true) :
    ofKinds? kinds =
      if kinds.count .kwLong < capacity 8 then some (({} : BuiltinWords).withAll kinds)
      else none := by
  have few : ({} : BuiltinWords).longs < capacity 8 := by decide
  have counted := foldlM_add? {} builtin few
  rwa [show ({} : BuiltinWords).longs = 0 from rfl, Nat.zero_add] at counted

/-- The record tells the letter that the list tells. -/
theorem baseCode_withAll (kinds : List Token.Kind) :
    (({} : BuiltinWords).withAll kinds).baseCode = (Spelling.ofKinds kinds).letter := by
  unfold baseCode Spelling.letter withAll Spelling.ofKinds
  simp only [Option.or_none, Bool.false_or, Nat.zero_add]
  have isBase : ∀ base, kinds.reverse.find? Token.Kind.isBase = some base → base.isBase = true :=
    fun base found => List.find?_some found
  generalize kinds.reverse.find? Token.Kind.isBase = base at isBase ⊢
  generalize kinds.count .kwLong = longs
  generalize kinds.contains .kwShort = short
  cases base with
  | none => rcases longs with _ | _ | more <;> cases short <;> simp [Longs.ofCount]
  | some base =>
    specialize isBase base rfl
    rcases longs with _ | _ | more <;> cases short <;> cases base <;> first
      | exact absurd isBase Bool.false_ne_true
      | simp [Longs.ofCount]

theorem any_withAll {kinds : List Token.Kind} (spelled : kinds ≠ []) :
    (({} : BuiltinWords).withAll kinds).any = true := by
  cases kinds with
  | nil => exact absurd rfl spelled
  | cons first rest => rfl

theorem encoding?_withAll {kinds : List Token.Kind} (spelled : kinds ≠ []) :
    (({} : BuiltinWords).withAll kinds).encoding? = some (Spelling.ofKinds kinds).type := by
  have sign : (({} : BuiltinWords).withAll kinds).sign = (Spelling.ofKinds kinds).sign :=
    Option.or_none
  have isSign : ∀ kind, (Spelling.ofKinds kinds).sign = some kind → kind.isSign = true :=
    fun kind found => List.find?_some found
  unfold encoding? Spelling.type
  rw [if_pos (any_withAll spelled), sign, baseCode_withAll]
  cases told : (Spelling.ofKinds kinds).sign with
  | none => rfl
  | some kind =>
    specialize isSign kind told
    cases kind <;> first
      | exact absurd isSign Bool.false_ne_true
      | simp
    · split
      · next character => rw [character]
      · rfl

theorem encoding_withAll {kinds : List Token.Kind} (spelled : kinds ≠ []) :
    (({} : BuiltinWords).withAll kinds).encoding = (Spelling.ofKinds kinds).type := by
  unfold encoding
  rw [encoding?_withAll spelled]
  rfl

/-- The keywords of a builtin type have the type of their spelling, where one byte can count the
`long`s, and otherwise they have none. -/
theorem ofKinds?_encoding? {kinds : List Token.Kind} (spelled : kinds ≠ [])
    (builtin : ∀ kind ∈ kinds, kind.isBuiltinType = true) :
    (ofKinds? kinds).bind encoding? = countedType? kinds := by
  rw [ofKinds?_eq builtin]
  unfold countedType?
  split
  · exact encoding?_withAll spelled
  · rfl

end BuiltinWords

/-! ## Loops over words -/

variable {α : Type} {state : State} {words rest : List Token} {token : Token} {g : Productions}
  {place : Place}

/-- A loop that takes one word in each turn and adds it to what was read takes all of them and ends
behind them, unless something cannot be counted. -/
theorem repeatWithin_words (add? : α → Token → Option α) (steady finished : α → Prop)
    {turn : α → Production (Turn α)} {count : Nat} {value : α}
    (takes : ∀ value token behind state, steady value → token ∈ words →
      state.tokens = token :: behind →
      turn value state = (add? value token).elim (.error .overflow state) fun more =>
        .ok (.again more) state.behindNext)
    (keeps : ∀ value token more, steady value → add? value token = some more → steady more)
    (ends : ∀ value state, finished value → state.tokens = rest →
      turn value state = .ok (.done value) state)
    (begins : steady value) (tokens : state.tokens = words ++ rest) (room : words.length < count) :
    (∀ last, words.foldlM add? value = some last → finished last →
      repeatWithin turn count value state = .ok last { state with tokens := rest }) ∧
    (words.foldlM add? value = none →
      ∃ after, repeatWithin turn count value state = .error .overflow after) := by
  induction words generalizing count value state with
  | nil =>
    rcases Nat.exists_eq_succ_of_ne_zero (Nat.ne_zero_of_lt room) with ⟨count, rfl⟩
    refine ⟨fun last folds done => ?_, fun folds => by cases folds⟩
    cases folds
    have stays : { state with tokens := rest } = state := by
      rw [← show state.tokens = rest from tokens]
    unfold repeatWithin
    rw [bind_of_ok (ends value state done tokens), stays]
    rfl
  | cons token words ih =>
    rcases Nat.exists_eq_succ_of_ne_zero (Nat.ne_zero_of_lt room) with ⟨count, rfl⟩
    have turned := takes value token (words ++ rest) state begins (List.mem_cons_self ..) tokens
    rw [List.foldlM_cons]
    unfold repeatWithin
    cases added : add? value token with
    | none =>
      rw [added] at turned
      refine ⟨fun last folds _ => ?_, fun _ => ⟨state, bind_of_error turned⟩⟩
      cases folds
    | some more =>
      rw [added] at turned
      have tokensBehind : state.behindNext.tokens = words ++ rest := by
        unfold State.behindNext
        rw [tokens]
        rfl
      have onward := ih (fun value token behind state steady member =>
          takes value token behind state steady (List.mem_cons_of_mem _ member))
        (keeps value token more begins added) tokensBehind (Nat.lt_of_succ_lt_succ room)
      rw [bind_of_ok turned]
      exact onward

theorem kind_of_front {behind : List Token} (tokens : state.tokens = token :: behind) :
    kind state = .ok token.kind state := by
  change EStateM.Result.ok (kindOf state.tokens) state = _
  rw [tokens]
  rfl

theorem take_of_front {behind : List Token} (tokens : state.tokens = token :: behind) :
    take state = .ok (Tree.ofToken token) state.behindNext := by
  change EStateM.Result.ok (Tree.ofToken state.next) state.behindNext = _
  unfold State.next
  rw [tokens]
  rfl

/-! ## In front of a cast -/

theorem foldlM_ofToken (words : List Token) (items : List Tree.Plain) :
    words.foldlM (fun items word => some (items ++ [Tree.ofToken word])) items =
      some (items ++ words.map Tree.ofToken) := by
  induction words generalizing items with
  | nil => simp
  | cons first rest ih => simp [ih]

theorem takeRun_eq (test : Token.Kind → Bool) (tokens : state.tokens = words ++ rest)
    (all : ∀ word ∈ words, test word.kind = true) (ended : test (kindOf rest) = false)
    (room : words.length < state.bound) :
    takeRun test state = .ok (words.map Tree.ofToken) { state with tokens := rest } := by
  refine (repeatWithin_words (fun items word => some (items ++ [Tree.ofToken word]))
    (fun _ => True) (fun _ => True) ?_ (fun _ _ _ _ _ => trivial) ?_ trivial tokens room).1 _
    (foldlM_ofToken words []) trivial
  · intro items word behind state _ member front
    rw [bind_of_ok (kind_of_front front), if_pos (all word member),
      bind_of_ok (take_of_front front)]
    rfl
  · intro items state _ front
    have asked : kind state = .ok (kindOf rest) state := by rw [← front]; rfl
    rw [bind_of_ok asked, ended]
    rfl

/-! ## In front of a declarator -/

/-- The specifiers with one more word, if it can be counted. -/
def SpecifierWords.add? (read : SpecifierWords) (word : Token) : Option SpecifierWords :=
  if word.kind.isBuiltinType then
    (read.builtin.add? word.kind).map fun builtin =>
      { read.withWord (Tree.ofToken word) with builtin := builtin }
  else if word.kind.isCvQualifier then some (read.withWord (Tree.ofToken word))
  else some { read with storage := read.storage ++ [Tree.ofToken word] }

/-- No word is a name. -/
theorem named_of_add? {read more : SpecifierWords} (added : read.add? token = some more) :
    more.named = read.named := by
  unfold SpecifierWords.add? at added
  split at added
  · rcases Option.map_eq_some_iff.mp added with ⟨builtin, -, rfl⟩
    rfl
  · split at added
    · cases added
      rfl
    · cases added
      rfl

theorem specifier_of_word {read : SpecifierWords} {behind : List Token}
    (unnamed : read.named = none) (plain : token.kind.isPlainSpecifier = true)
    (tokens : state.tokens = token :: behind) :
    specifier g place read state = (read.add? token).elim (.error .overflow state) fun more =>
      .ok (.again more) state.behindNext := by
  have taken := take_of_front tokens
  unfold specifier SpecifierWords.add?
  rw [bind_of_ok (kind_of_front tokens)]
  dsimp only
  by_cases builtin : token.kind.isBuiltinType = true
  · have storage := isDeclSpecifier_of_isBuiltinType builtin
    have qualifier := Token.Kind.isCvQualifier_of_isBuiltinType builtin
    simp only [storage, qualifier, builtin, unnamed, Bool.false_and, Bool.false_eq_true, if_false,
      Option.isNone_none, Bool.and_self, if_true]
    cases added : read.builtin.add? token.kind with
    | none => rfl
    | some more =>
      have counted : counting (some more) state = .ok more state := rfl
      exact (bind_of_ok counted).trans (bind_of_ok taken)
  · rw [if_neg builtin]
    by_cases qualifier : token.kind.isCvQualifier = true
    · have storage := isDeclSpecifier_of_isCvQualifier qualifier
      simp only [storage, qualifier, Bool.false_and, Bool.false_eq_true, if_false, if_true]
      exact bind_of_ok taken
    · have storage : (token.kind.isDeclSpecifier && token.kind != .kwTypedef) = true := by
        unfold Token.Kind.isPlainSpecifier at plain
        simp_all
      rw [if_pos storage, if_neg qualifier]
      exact bind_of_ok taken

theorem specifier_behind_words {read : SpecifierWords} (typed : read.hasType = true)
    (ended : (kindOf state.tokens).isPlainSpecifier = false) :
    specifier g place read state = .ok (.done read) state := by
  have asked : kind state = .ok (kindOf state.tokens) state := rfl
  unfold Token.Kind.isPlainSpecifier at ended
  rw [Bool.or_eq_false_iff, Bool.or_eq_false_iff] at ended
  rcases ended with ⟨⟨builtin, qualifier⟩, storage⟩
  unfold specifier
  rw [bind_of_ok asked]
  simp only [storage, qualifier, builtin, typed, Bool.false_and, Bool.false_eq_true, if_false,
    if_true]
  rfl

/-- The kinds of the builtin keywords among some words. -/
def builtinKinds (words : List Token) : List Token.Kind :=
  (words.map (·.kind)).filter Token.Kind.isBuiltinType

/-- The storage classes and function specifiers among some words. -/
def storageWords (words : List Token) : List Token := words.filter (·.kind.isDeclSpecifier)

/-- The words of the type among some words. -/
def typeWords (words : List Token) : List Token := words.filter (!·.kind.isDeclSpecifier)

/-- The words go to three places, each in the order in which they stand. -/
theorem foldlM_specifierWords (plain : ∀ word ∈ words, word.kind.isPlainSpecifier = true)
    (read : SpecifierWords) :
    words.foldlM SpecifierWords.add? read =
      ((builtinKinds words).foldlM BuiltinWords.add? read.builtin).map fun builtin =>
        { storage := read.storage ++ (storageWords words).map Tree.ofToken
          words := read.words ++ (typeWords words).map Tree.ofToken
          builtin := builtin
          named := read.named } := by
  induction words generalizing read with
  | nil => simp [builtinKinds, storageWords, typeWords]
  | cons word words ih =>
    rcases List.forall_mem_cons.mp plain with ⟨first, others⟩
    rw [List.foldlM_cons, SpecifierWords.add?]
    by_cases builtin : word.kind.isBuiltinType = true
    · have storage := isDeclSpecifier_of_isBuiltinType builtin
      have kinds : builtinKinds (word :: words) = word.kind :: builtinKinds words :=
        List.filter_cons_of_pos builtin
      rw [if_pos builtin, kinds, List.foldlM_cons]
      cases read.builtin.add? word.kind with
      | none => rfl
      | some more =>
        refine (ih others _).trans ?_
        simp [SpecifierWords.withWord, storageWords, typeWords, storage]
    · have kinds : builtinKinds (word :: words) = builtinKinds words :=
        List.filter_cons_of_neg builtin
      rw [if_neg builtin, kinds]
      by_cases qualifier : word.kind.isCvQualifier = true
      · have storage := isDeclSpecifier_of_isCvQualifier qualifier
        rw [if_pos qualifier]
        refine (ih others _).trans ?_
        simp [SpecifierWords.withWord, storageWords, typeWords, storage]
      · have storage : word.kind.isDeclSpecifier = true := by
          unfold Token.Kind.isPlainSpecifier at first
          simp_all
        rw [if_neg qualifier]
        refine (ih others _).trans ?_
        simp [storageWords, typeWords, storage]

/-- A type with the qualifiers among some words; `const` comes outermost. -/
def qualified (words : List Token) (type : Encoding) : Encoding :=
  let inner := if words.any (·.kind == .kwVolatile) then type.volatileOf else type
  if words.any (·.kind == .kwConst) then inner.constOf else inner

/-- No qualifier is a storage class. -/
theorem any_typeWords {keyword : Token.Kind} (qualifier : keyword.isCvQualifier = true) :
    ((typeWords words).map Tree.ofToken).any (·.isToken keyword) =
      words.any (·.kind == keyword) := by
  have isToken : ∀ word : Token, (Tree.ofToken word).isToken keyword = (word.kind == keyword) :=
    fun _ => rfl
  have storage := isDeclSpecifier_of_isCvQualifier qualifier
  unfold typeWords
  rw [List.any_map, List.any_filter]
  congr 1
  funext word
  simp only [Function.comp_apply, isToken]
  by_cases same : word.kind = keyword
  · simp [same, storage]
  · simp [same]

/-- What is read of some words, however many `long`s are among them. -/
def SpecifierWords.ofWords (words : List Token) : SpecifierWords where
  storage := (storageWords words).map Tree.ofToken
  words := (typeWords words).map Tree.ofToken
  builtin := ({} : BuiltinWords).withAll (builtinKinds words)

theorem isBuiltinType_of_mem {kind : Token.Kind} (member : kind ∈ builtinKinds words) :
    kind.isBuiltinType = true :=
  (List.mem_filter.mp member).2

theorem foldlM_specifierWords_empty (plain : ∀ word ∈ words, word.kind.isPlainSpecifier = true) :
    words.foldlM SpecifierWords.add? {} =
      if (builtinKinds words).count .kwLong < capacity 8 then some (.ofWords words) else none := by
  have counted : BuiltinWords.ofKinds? (builtinKinds words) = _ :=
    BuiltinWords.ofKinds?_eq fun _ => isBuiltinType_of_mem
  rw [foldlM_specifierWords plain {}]
  change Option.map _ (BuiltinWords.ofKinds? (builtinKinds words)) = _
  rw [counted]
  split
  · rfl
  · rfl

theorem encoding_ofWords (spelled : builtinKinds words ≠ []) :
    (SpecifierWords.ofWords words).encoding =
      qualified words (Spelling.ofKinds (builtinKinds words)).type := by
  have bare : (SpecifierWords.ofWords words).bareType =
      (Spelling.ofKinds (builtinKinds words)).type := by
    unfold SpecifierWords.bareType SpecifierWords.ofWords
    dsimp only
    rw [BuiltinWords.encoding?_withAll spelled]
    rfl
  have any : ∀ keyword : Token.Kind, keyword.isCvQualifier = true →
      (SpecifierWords.ofWords words).words.any (·.isToken keyword) =
        words.any (·.kind == keyword) :=
    fun keyword qualifier => any_typeWords qualifier
  unfold SpecifierWords.encoding qualified
  dsimp only
  rw [any .kwConst rfl, any .kwVolatile rfl, bare]

theorem hasType_ofWords (spelled : builtinKinds words ≠ []) :
    (SpecifierWords.ofWords words).hasType = true := BuiltinWords.any_withAll spelled

/-- Specifiers with some builtin keywords among them have the type that these spell, wherever they
stand between storage classes and qualifiers. -/
theorem specifiers_of_words (tokens : state.tokens = words ++ rest)
    (plain : ∀ word ∈ words, word.kind.isPlainSpecifier = true)
    (ended : (kindOf rest).isPlainSpecifier = false) (spelled : builtinKinds words ≠ [])
    (room : words.length < state.bound) :
    (∀ type, countedType? (builtinKinds words) = some type →
      specifiers g place state = .ok ⟨Tree.seq ((storageWords words).map Tree.ofToken),
        grouped ((typeWords words).map Tree.ofToken), qualified words type⟩
        { state with tokens := rest }) ∧
    (countedType? (builtinKinds words) = none →
      ∃ after, specifiers g place state = .error .overflow after) := by
  have loop : (∀ last, words.foldlM SpecifierWords.add? {} = some last → last.hasType = true →
      repeatFrom {} (specifier g place) state = .ok last { state with tokens := rest }) ∧
      (words.foldlM SpecifierWords.add? {} = none →
        ∃ after, repeatFrom {} (specifier g place) state = .error .overflow after) := by
    refine repeatWithin_words SpecifierWords.add? (fun read => read.named = none)
      (fun read => read.hasType = true) ?_ ?_ ?_ rfl tokens room
    · exact fun read word behind state unnamed member =>
        specifier_of_word unnamed (plain word member)
    · exact fun read word more unnamed added => (named_of_add? added).trans unnamed
    · intro read state typed front
      exact specifier_behind_words typed (front ▸ ended)
  rw [foldlM_specifierWords_empty plain] at loop
  unfold countedType?
  split
  · next few =>
    rw [if_pos few] at loop
    refine ⟨fun type same => ?_, fun none => nomatch none⟩
    cases same
    rw [← encoding_ofWords spelled]
    exact bind_of_ok (loop.1 _ rfl (hasType_ofWords spelled))
  · next many =>
    rw [if_neg many] at loop
    rcases loop.2 rfl with ⟨after, stops⟩
    exact ⟨fun type same => (nomatch same), fun _ => ⟨after, bind_of_error stops⟩⟩

/-- A cast whose type is spelled by builtin keywords goes on with the type that these spell. -/
theorem builtinCast_of_words (tokens : state.tokens = words ++ rest)
    (builtin : ∀ word ∈ words, word.kind.isBuiltinType = true)
    (ended : (kindOf rest).isBuiltinType = false) (spelled : words ≠ [])
    (room : words.length < state.bound) :
    (∀ type, countedType? (words.map (·.kind)) = some type →
      builtinCast g state = callCast g (grouped (words.map Tree.ofToken)) type
        { state with tokens := rest }) ∧
    (countedType? (words.map (·.kind)) = none →
      builtinCast g state = .error .overflow { state with tokens := rest }) := by
  have kinds : (words.map Tree.ofToken).filterMap Tree.kind? = words.map (·.kind) := by
    rw [List.filterMap_map, ← List.filterMap_eq_map]
    rfl
  have counted : BuiltinWords.ofKinds? (words.map (·.kind)) = _ :=
    BuiltinWords.ofKinds?_eq (List.forall_mem_map.mpr builtin)
  have some : words.map (·.kind) ≠ [] := mt List.map_eq_nil_iff.mp spelled
  unfold builtinCast
  rw [bind_of_ok (takeRun_eq Token.Kind.isBuiltinType tokens builtin ended room), kinds, counted]
  unfold countedType?
  split
  · refine ⟨fun type same => ?_, fun none => nomatch none⟩
    rw [← Option.some.inj same, ← BuiltinWords.encoding_withAll some]
    rfl
  · exact ⟨fun type same => (nomatch same), fun _ => rfl⟩

/-- Builtin keywords are counted exactly, as far as one byte counts.  Whatever keywords a list
holds, in whatever order, the record that the parser keeps of them has the type of their spelling,
unless there are two hundred and fifty-six `long`s or more; then there is no record.  So it is where
such keywords are read: in front of a declarator, mixed with qualifiers and storage classes, and in
front of a cast the type is that of their spelling and all of them are taken, or counting them stops
the parser. -/
theorem builtinType_exact (state : State) (words rest : List Token)
    (tokens : state.tokens = words ++ rest) (room : words.length < state.bound) :
    (∀ kinds : List Token.Kind, kinds ≠ [] → (∀ kind ∈ kinds, kind.isBuiltinType = true) →
      (BuiltinWords.ofKinds? kinds).bind BuiltinWords.encoding? = countedType? kinds) ∧
    ((∀ word ∈ words, word.kind.isPlainSpecifier = true) →
      (kindOf rest).isPlainSpecifier = false → builtinKinds words ≠ [] → ∀ g place,
      (∀ type, countedType? (builtinKinds words) = some type →
        specifiers g place state = .ok ⟨Tree.seq ((storageWords words).map Tree.ofToken),
          grouped ((typeWords words).map Tree.ofToken), qualified words type⟩
          { state with tokens := rest }) ∧
      (countedType? (builtinKinds words) = none →
        ∃ after, specifiers g place state = .error .overflow after)) ∧
    ((∀ word ∈ words, word.kind.isBuiltinType = true) → (kindOf rest).isBuiltinType = false →
      words ≠ [] → ∀ g,
      (∀ type, countedType? (words.map (·.kind)) = some type →
        builtinCast g state = callCast g (grouped (words.map Tree.ofToken)) type
          { state with tokens := rest }) ∧
      (countedType? (words.map (·.kind)) = none →
        builtinCast g state = .error .overflow { state with tokens := rest })) :=
  ⟨fun _ spelled builtin => BuiltinWords.ofKinds?_encoding? spelled builtin,
    fun plain ended spelled _ _ => specifiers_of_words tokens plain ended spelled room,
    fun builtin ended spelled _ => builtinCast_of_words tokens builtin ended spelled room⟩

/-- The tokens of `unsigned long int const long`. -/
def mixedWords : List Token :=
  [⟨.kwUnsigned, "unsigned", 0⟩, ⟨.kwLong, "long", 9⟩, ⟨.kwInt, "int", 14⟩, ⟨.kwConst, "const", 18⟩,
    ⟨.kwLong, "long", 24⟩]

/-- The tokens of `long` written a number of times. -/
def longWords (count : Nat) : List Token :=
  (List.range count).map fun index => ⟨.kwLong, "long", 5 * index⟩

/-- The state in front of a text of some words. -/
def inFrontOfWords (words : List Token) : State := .ofTokens 64 (words ++ [Token.endAt 2000])

theorem length_lt_foldr_weight (tokens : List Token) :
    tokens.length < tokens.foldr (fun token count => weight token + count) 1 := by
  induction tokens with
  | nil => exact Nat.lt_succ_self 0
  | cons token rest ih =>
    have positive := weight_pos token
    rw [List.length_cons, List.foldr_cons]
    omega

/-- In front of a text there is room for all of its tokens. -/
theorem length_lt_bound {maxDepth : Nat} {tokens : List Token}
    (front : (State.ofTokens maxDepth tokens).tokens = words ++ rest) :
    words.length < (State.ofTokens maxDepth tokens).bound := by
  have fewer : words.length ≤ tokens.length := by
    have parts : tokens.dropLast.length = words.length + rest.length :=
      (congrArg List.length front).trans List.length_append
    rw [List.length_dropLast] at parts
    omega
  exact Nat.lt_of_le_of_lt fewer (length_lt_foldr_weight tokens)

theorem tokens_inFrontOfWords (words : List Token) :
    (inFrontOfWords words).tokens = words ++ [] := by
  rw [List.append_nil]
  exact List.dropLast_concat

theorem builtinKinds_longWords (count : Nat) :
    builtinKinds (longWords count) = List.replicate count .kwLong := by
  have kinds : (longWords count).map (·.kind) = List.replicate count .kwLong := by
    unfold longWords
    rw [List.map_map]
    refine List.map_const'.trans ?_
    rw [List.length_range]
  unfold builtinKinds
  rw [kinds, List.filter_replicate]
  rfl

/-- The words may be mixed, and two hundred and fifty-six `long`s are too many. -/
theorem builtinType_exact_longs :
    (∃ read after, specifiers (productions 1) .file (inFrontOfWords mixedWords) = .ok read after ∧
      read.encoding = ⟨[0x43, 0x55, 0x6a]⟩ ∧ after.tokens = []) ∧
    ∃ after, specifiers (productions 1) .file (inFrontOfWords (longWords 256)) =
      .error .overflow after := by
  refine ⟨?_, ?_⟩
  · have spelled := (builtinType_exact (inFrontOfWords mixedWords) mixedWords []
      (tokens_inFrontOfWords _) (length_lt_bound (tokens_inFrontOfWords _))).2.1 (by decide) rfl
      (by decide) (productions 1) .file
    exact ⟨_, _, spelled.1 _ rfl, rfl, rfl⟩
  · have plain : ∀ word ∈ longWords 256, word.kind.isPlainSpecifier = true := by
      intro word member
      rcases List.mem_map.mp member with ⟨index, -, rfl⟩
      rfl
    have counted := (builtinType_exact (inFrontOfWords (longWords 256)) (longWords 256) []
      (tokens_inFrontOfWords _) (length_lt_bound (tokens_inFrontOfWords _))).2.1 plain rfl
      (by rw [builtinKinds_longWords]; exact List.cons_ne_nil _ _) (productions 1) .file
    rw [builtinKinds_longWords] at counted
    refine counted.2 ?_
    unfold countedType?
    rw [List.count_replicate_self]
    exact if_neg (Nat.lt_irrefl _)

end Grammar
end CppNames
