import Dropwatch.Lib.Json

/-! # The texts of a JSON value

    The grammar, apart from the loader: how a string may spell its characters (`Spells`),
    where blanks may stand (`TokenText`), and which tokens make up a value (`Phrase`).
    A value has many texts (`Text`), and the loader reads each of them as that value, if it
    goes as deep as the text (`loads_of_text`).  A character outside the basic plane has no
    escape here, as it is the pair of two. -/

namespace Json

/-! ## Strings -/

/-- A character that a string shows as it is. -/
def plainChar (c : Char) : Bool := c != '"' && c != '\\' && decide (32 ≤ c.toNat)

/-- The spellings of a character. -/
inductive Spells (c : Char) : List Char → Prop where
  | plain (h : plainChar c = true) : Spells c [c]
  | escape {e : Char} (h : escapeChar e = some c) : Spells c ['\\', e]
  | unicode {a b d e : Char} {i j k l : Nat} (ha : hexValue a = some i) (hb : hexValue b = some j)
      (hd : hexValue d = some k) (he : hexValue e = some l)
      (h : c.toNat = ((i * 16 + j) * 16 + k) * 16 + l) : Spells c ['\\', 'u', a, b, d, e]

/-- What may stand between the quotes of a string. -/
inductive StringText : List Char → List Char → Prop where
  | nil : StringText [] []
  | cons {c : Char} {s cs text : List Char} (hc : Spells c s) (h : StringText cs text) :
      StringText (c :: cs) (s ++ text)

theorem StringText.plain {cs : List Char} (h : ∀ c ∈ cs, plainChar c = true) :
    StringText cs cs := by
  induction cs with
  | nil => exact .nil
  | cons c cs ih =>
      exact .cons (.plain (h c List.mem_cons_self))
        (ih (fun x hx => h x (List.mem_cons_of_mem c hx)))

theorem lex_cons {st st' : Lex} {c : Char} {ts : List Token} (h : lexStep st c = (ts, st'))
    (cs : List Char) : lex st (c :: cs) = ts ++ lex st' cs := by
  rw [lex, h]

/-- A step that gives no token. -/
theorem lex_silent {st st' : Lex} {c : Char} (h : lexStep st c = ([], st'))
    (cs : List Char) : lex st (c :: cs) = lex st' cs :=
  lex_cons h cs

/-- However it is spelled, a character is taken up as itself. -/
theorem lex_spells {c : Char} {s : List Char} (h : Spells c s) (acc : List Nat)
    (rest : List Char) : lex (.inString acc) (s ++ rest) = lex (.inString (c.toNat :: acc)) rest := by
  cases h with
  | plain h =>
      obtain ⟨hquoted, hcode⟩ := Bool.and_eq_true_iff.mp h
      obtain ⟨hquote, hslash⟩ := Bool.and_eq_true_iff.mp hquoted
      rw [bne_iff_ne] at hquote hslash
      rw [decide_eq_true_eq] at hcode
      refine lex_silent ?_ rest
      simp [lexStep, hquote, hslash, Nat.not_lt.mpr hcode]
  | @escape e h =>
      have hu : e ≠ 'u' := by
        rintro rfl
        cases h
      have hslash : lexStep (.inString acc) '\\' = ([], .escape acc) := rfl
      have hletter : lexStep (.escape acc) e = ([], .inString (c.toNat :: acc)) := by
        simp [lexStep, hu, h]
      exact (lex_silent hslash (e :: rest)).trans (lex_silent hletter rest)
  | @unicode a b d e i j k l ha hb hd he h =>
      have hslash : lexStep (.inString acc) '\\' = ([], .escape acc) := rfl
      have hmark : lexStep (.escape acc) 'u' = ([], .unicode 3 0 acc) := rfl
      have hdigit : ∀ (left code : Nat) {x : Char} {n : Nat}, hexValue x = some n →
          lexStep (.unicode (left + 1) code acc) x
            = ([], .unicode left (code * 16 + n) acc) := by
        intro left code x n hx
        simp [lexStep, hx]
      have hlast : lexStep (.unicode 0 ((i * 16 + j) * 16 + k) acc) e
          = ([], .inString (c.toNat :: acc)) := by
        simp only [lexStep, he, h]
      have hfirst := hdigit 2 0 ha
      rw [Nat.zero_mul, Nat.zero_add] at hfirst
      exact (lex_silent hslash _).trans ((lex_silent hmark _).trans ((lex_silent hfirst _).trans
        ((lex_silent (hdigit _ _ hb) _).trans ((lex_silent (hdigit _ _ hd) _).trans
          (lex_silent hlast rest)))))

theorem lex_string {cs s : List Char} (h : StringText cs s) (acc : List Nat)
    (rest : List Char) : lex (.inString acc) (s ++ rest)
      = lex (.inString ((cs.map Char.toNat).reverse ++ acc)) rest := by
  induction h generalizing acc with
  | nil => rfl
  | @cons c s cs text hc h ih =>
      rw [List.append_assoc, lex_spells hc, ih, List.map_cons, List.reverse_cons,
        List.append_assoc]
      rfl

/-- A character is no half of a surrogate pair. -/
theorem not_surrogate (c : Char) : c.toNat < 0xD800 ∨ 0xE000 ≤ c.toNat := by
  rcases c.valid with hlow | ⟨hhigh, -⟩
  · exact Or.inl hlow
  · exact Or.inr hhigh

theorem unitChar_toNat (c : Char) : unitChar c.toNat = c := by
  have hc := not_surrogate c
  rw [unitChar, if_neg (by omega), Char.ofNat_toNat]

/-- The code units of characters stand for them. -/
theorem unitChars_map (cs : List Char) : unitChars (cs.map Char.toNat) = cs := by
  induction cs with
  | nil => rfl
  | cons c cs ih =>
      cases cs with
      | nil => rw [List.map_cons, List.map_nil, unitChars, unitChar_toNat]
      | cons c' cs =>
          have hc := not_surrogate c
          rw [List.map_cons, List.map_cons, unitChars, if_neg (by omega), unitChar_toNat]
          rw [List.map_cons] at ih
          rw [ih]

/-! ## Tokens -/

/-- The character of a token that is one. -/
def Token.mark : Token → Option Char
  | .open false => some '{'
  | .open true => some '['
  | .close false => some '}'
  | .close true => some ']'
  | .colon => some ':'
  | .comma => some ','
  | _ => none

/-- The texts of a sequence of tokens. -/
inductive TokenText : List Token → List Char → Prop where
  | nil : TokenText [] []
  | blank {ts : List Token} {c : Char} {text : List Char} (hc : isBlank c = true)
      (h : TokenText ts text) : TokenText ts (c :: text)
  | mark {t : Token} {ts : List Token} {c : Char} {text : List Char} (hc : t.mark = some c)
      (h : TokenText ts text) : TokenText (t :: ts) (c :: text)
  | str {cs s : List Char} {ts : List Token} {text : List Char} (hs : StringText cs s)
      (h : TokenText ts text) : TokenText (.str cs :: ts) ('"' :: (s ++ '"' :: text))
  | atom {cs : List Char} {ts : List Token} {text : List Char} (hne : cs ≠ [])
      (hcs : ∀ c ∈ cs, isAtomChar c = true)
      (hend : ∀ c, text.head? = some c → isAtomChar c = false) (h : TokenText ts text) :
      TokenText (.atom cs :: ts) (cs ++ text)

/-- A string that is shown as it is. -/
theorem TokenText.quoted (s : String) (h : s.toList.all plainChar = true) {ts : List Token}
    {text : List Char} (h' : TokenText ts text) :
    TokenText (.str s.toList :: ts) ('"' :: (s.toList ++ '"' :: text)) :=
  .str (.plain (List.all_eq_true.mp h)) h'

/-- How a token is shown without blanks and escapes. -/
def Token.shown : Token → List Char
  | .str cs => '"' :: (cs ++ ['"'])
  | .atom cs => cs
  | t => t.mark.toList

/-- Marks, and strings that are shown as they are. -/
def Token.isPlain : Token → Bool
  | .str cs => cs.all plainChar
  | .atom _ => false
  | .invalid => false
  | _ => true

theorem TokenText.shown {ts : List Token} (h : ts.all Token.isPlain = true) :
    TokenText ts (ts.flatMap Token.shown) := by
  induction ts with
  | nil => exact .nil
  | cons t ts ih =>
      rw [List.all_cons, Bool.and_eq_true] at h
      obtain ⟨ht, hts⟩ := h
      rw [List.flatMap_cons]
      cases t with
      | str cs =>
          rw [Token.shown, List.cons_append, List.append_assoc]
          exact .str (.plain (List.all_eq_true.mp ht)) (ih hts)
      | atom cs => cases ht
      | invalid => cases ht
      | «open» square => cases square <;> exact .mark rfl (ih hts)
      | close square => cases square <;> exact .mark rfl (ih hts)
      | colon => exact .mark rfl (ih hts)
      | comma => exact .mark rfl (ih hts)

theorem lexStep_blank {c : Char} (h : isBlank c = true) :
    lexStep .start c = ([], .start) := by
  rw [lexStep, lexStart, if_pos h]

theorem lexStep_mark {t : Token} {c : Char} (h : t.mark = some c) :
    lexStep .start c = ([t], .start) := by
  cases t with
  | «open» square => cases square <;> obtain rfl := Option.some.inj h <;> rfl
  | close square => cases square <;> obtain rfl := Option.some.inj h <;> rfl
  | colon => obtain rfl := Option.some.inj h; rfl
  | comma => obtain rfl := Option.some.inj h; rfl
  | str s => cases h
  | atom s => cases h
  | invalid => cases h

theorem lexStep_atom {c : Char} (h : isAtomChar c = true) :
    lexStep .start c = ([], .inAtom [c]) := by
  have hne : ∀ m, isAtomChar m = false → (c == m) = false := by
    intro m hm
    rw [beq_eq_false_iff_ne]
    rintro rfl
    rw [hm] at h
    cases h
  simp only [lexStep, lexStart, isBlank, hne _ (by decide : isAtomChar ' ' = false),
    hne _ (by decide : isAtomChar '\t' = false), hne _ (by decide : isAtomChar '\n' = false),
    hne _ (by decide : isAtomChar '\r' = false), hne _ (by decide : isAtomChar '{' = false),
    hne _ (by decide : isAtomChar '}' = false), hne _ (by decide : isAtomChar '[' = false),
    hne _ (by decide : isAtomChar ']' = false), hne _ (by decide : isAtomChar ':' = false),
    hne _ (by decide : isAtomChar ',' = false), hne _ (by decide : isAtomChar '"' = false), h]
  rfl

/-- An atom goes as far as it can. -/
theorem lex_atom {cs text : List Char} (hcs : ∀ c ∈ cs, isAtomChar c = true)
    (hend : ∀ c, text.head? = some c → isAtomChar c = false) (acc : List Char) :
    lex (.inAtom acc) (cs ++ text) = .atom (acc.reverse ++ cs) :: lex .start text := by
  induction cs generalizing acc with
  | nil =>
      rw [List.append_nil]
      cases text with
      | nil => rfl
      | cons c text =>
          have hstep : lexStep (.inAtom acc) c
              = (.atom acc.reverse :: (lexStart c).1, (lexStart c).2) := by
            rw [lexStep, if_neg (by rw [hend c rfl]; exact Bool.false_ne_true)]
          rw [List.nil_append, lex_cons hstep, lex]
          rfl
  | cons c cs ih =>
      have hstep : lexStep (.inAtom acc) c = ([], .inAtom (c :: acc)) := by
        rw [lexStep, if_pos (hcs c List.mem_cons_self)]
      rw [List.cons_append, lex_silent hstep, ih (fun x hx => hcs x (List.mem_cons_of_mem c hx)),
        List.reverse_cons, List.append_assoc]
      rfl

/-- The lexer takes every text of some tokens apart into them. -/
theorem lex_of_tokenText {ts : List Token} {text : List Char} (h : TokenText ts text) :
    lex .start text = ts := by
  induction h with
  | nil => rfl
  | blank hc h ih => rw [lex_silent (lexStep_blank hc), ih]
  | mark hc h ih =>
      rw [lex_cons (lexStep_mark hc), ih]
      rfl
  | @str cs s ts text hs h ih =>
      have hopen : lexStep .start '"' = ([], .inString []) := rfl
      have hclose : lexStep (.inString (cs.map Char.toNat).reverse) '"'
          = ([.str cs], .start) := by
        rw [lexStep, if_pos (beq_self_eq_true '"'), List.reverse_reverse, unitChars_map]
      rw [lex_silent hopen, lex_string hs, List.append_nil, lex_cons hclose, ih]
      rfl
  | @atom cs ts text hne hcs hend h ih =>
      obtain ⟨c, cs, rfl⟩ := List.exists_cons_of_ne_nil hne
      rw [List.cons_append, lex_silent (lexStep_atom (hcs c List.mem_cons_self)),
        lex_atom (fun x hx => hcs x (List.mem_cons_of_mem c hx)) hend, ih]
      rfl

/-! ## Values -/

/-- What a stretch of tokens stands for. -/
inductive Part where
  | value (v : Value)
  | items (vs : List Value)
  /-- The entries of an object, backwards. -/
  | entries (es : List (String × Value))

/-- The tokens of a value, of the items of an array and of the entries of an object, in
    which at most `n` arrays and objects are open at once. -/
inductive Phrase : Nat → Part → List Token → Prop where
  | atom {n : Nat} {cs : List Char} {v : Value} (h : atomValue cs = some v) :
      Phrase n (.value v) [.atom cs]
  | str {n : Nat} (s : String) : Phrase n (.value (.str s)) [.str s.toList]
  | noItems {n : Nat} : Phrase (n + 1) (.value (.arr [])) [.open true, .close true]
  | arr {n : Nat} {vs : List Value} {ts : List Token} (h : Phrase n (.items vs) ts) :
      Phrase (n + 1) (.value (.arr vs)) (.open true :: (ts ++ [.close true]))
  | noEntries {n : Nat} : Phrase (n + 1) (.value (.obj [])) [.open false, .close false]
  | obj {n : Nat} {es : List (String × Value)} {ts : List Token} (h : Phrase n (.entries es) ts) :
      Phrase (n + 1) (.value (.obj es)) (.open false :: (ts ++ [.close false]))
  | item {n : Nat} {v : Value} {ts : List Token} (h : Phrase n (.value v) ts) :
      Phrase n (.items [v]) ts
  | moreItems {n : Nat} {vs : List Value} {v : Value} {ts ts' : List Token}
      (hs : Phrase n (.items vs) ts) (h : Phrase n (.value v) ts') :
      Phrase n (.items (vs ++ [v])) (ts ++ .comma :: ts')
  | entry {n : Nat} {v : Value} {ts : List Token} (key : String) (h : Phrase n (.value v) ts) :
      Phrase n (.entries [(key, v)]) (.str key.toList :: .colon :: ts)
  | moreEntries {n : Nat} {es : List (String × Value)} {v : Value} {ts ts' : List Token}
      (hs : Phrase n (.entries es) ts) (key : String) (h : Phrase n (.value v) ts') :
      Phrase n (.entries ((key, v) :: es)) (ts ++ .comma :: .str key.toList :: .colon :: ts')

section Parse

variable {limit : Nat}

/-- The parser gets past the part, where there is room for it. -/
def Part.Read (limit n : Nat) (ts : List Token) : Part → Prop
  | .value v => ∀ stack rest, stack.length + n ≤ limit →
      parse limit (.value, stack) (ts ++ rest) = parse limit (complete v stack) rest
        ∧ parse limit (.valueOrClose, stack) (ts ++ rest) = parse limit (complete v stack) rest
  | .items vs => ∀ stack rest, stack.length + (n + 1) ≤ limit →
      parse limit (.valueOrClose, .arr [] :: stack) (ts ++ rest)
        = parse limit (.next (.arr vs.reverse), stack) rest
  | .entries es => ∃ key, ∀ stack rest, stack.length + (n + 1) ≤ limit →
      parse limit (.key [] true, stack) (ts ++ rest)
        = parse limit (.next (.obj es key), stack) rest

theorem parse_cons {st st' : Mode × List Frame} {t : Token} (hroom : tooDeep limit st t = false)
    (h : parseStep st t = some st') (ts : List Token) :
    parse limit st (t :: ts) = parse limit st' ts := by
  rw [parse, if_neg (by rw [hroom]; exact Bool.false_ne_true), h]

theorem parseStep_value (t : Token) (stack : List Frame) :
    parseStep (.value, stack) t = beginValue t stack := by
  cases t <;> rfl

theorem parseStep_valueOrClose {t : Token} (ht : t ≠ .close true) (stack : List Frame) :
    parseStep (.valueOrClose, stack) t = beginValue t stack := by
  cases t with
  | close square =>
      cases square with
      | true => exact absurd rfl ht
      | false => rcases stack with - | ⟨- | -, stack⟩ <;> rfl
  | «open» square => rcases stack with - | ⟨- | -, stack⟩ <;> rfl
  | colon => rcases stack with - | ⟨- | -, stack⟩ <;> rfl
  | comma => rcases stack with - | ⟨- | -, stack⟩ <;> rfl
  | str s => rcases stack with - | ⟨- | -, stack⟩ <;> rfl
  | atom s => rcases stack with - | ⟨- | -, stack⟩ <;> rfl
  | invalid => rcases stack with - | ⟨- | -, stack⟩ <;> rfl

/-- A token that opens an array or object. -/
def Token.opens : Token → Bool
  | .open _ => true
  | _ => false

/-- Only an opening token takes room. -/
theorem tooDeep_eq_false {t : Token} {stack : List Frame}
    (hroom : t.opens = true → stack.length < limit) :
    tooDeep limit (.value, stack) t = false ∧ tooDeep limit (.valueOrClose, stack) t = false := by
  cases t with
  | «open» square =>
      have hlt := hroom rfl
      simp only [tooDeep, decide_eq_false_iff_not, Nat.not_le]
      exact ⟨hlt, hlt⟩
  | _ => exact ⟨rfl, rfl⟩

/-- A token that begins a value does so at either place. -/
theorem parse_begin {t : Token} {stack : List Frame} {st : Mode × List Frame}
    (ht : t ≠ .close true) (h : beginValue t stack = some st)
    (hroom : t.opens = true → stack.length < limit) (ts : List Token) :
    parse limit (.value, stack) (t :: ts) = parse limit st ts
      ∧ parse limit (.valueOrClose, stack) (t :: ts) = parse limit st ts :=
  ⟨parse_cons (tooDeep_eq_false hroom).1 ((parseStep_value t stack).trans h) ts,
    parse_cons (tooDeep_eq_false hroom).2 ((parseStep_valueOrClose ht stack).trans h) ts⟩

theorem Phrase.read {n : Nat} {part : Part} {ts : List Token} (h : Phrase n part ts) :
    part.Read limit n ts := by
  -- On the grammar: a value is read wherever it may stand, a list or an object up to its
  -- closing bracket, which the constructor around it reads.
  induction h with
  | @atom n cs v h =>
      intro stack rest _
      refine parse_begin Token.noConfusion ?_ (fun h => by cases h) rest
      rw [beginValue, h]
      rfl
  | str s =>
      intro stack rest _
      refine parse_begin Token.noConfusion ?_ (fun h => by cases h) rest
      rw [beginValue, String.ofList_toList]
  | noItems =>
      intro stack rest hroom
      exact parse_begin (t := .open true) (by decide) rfl (fun _ => by omega)
        (.close true :: rest)
  | @arr n vs ts h ih =>
      intro stack rest hroom
      have hopen := parse_begin (t := .open true) (by decide) rfl
        (fun _ => (by omega : stack.length < limit)) (ts ++ .close true :: rest)
      have hclose : parse limit (.next (.arr vs.reverse), stack) (.close true :: rest)
          = parse limit (complete (.arr vs) stack) rest := by
        refine parse_cons rfl ?_ rest
        rw [parseStep, List.reverse_reverse]
      have hread := (ih stack (.close true :: rest) hroom).trans hclose
      rw [List.cons_append, List.append_assoc]
      exact ⟨hopen.1.trans hread, hopen.2.trans hread⟩
  | noEntries =>
      intro stack rest hroom
      exact parse_begin (t := .open false) Token.noConfusion rfl (fun _ => by omega)
        (.close false :: rest)
  | @obj n es ts h ih =>
      obtain ⟨key, hread⟩ := ih
      intro stack rest hroom
      have hopen := parse_begin (t := .open false) Token.noConfusion rfl
        (fun _ => (by omega : stack.length < limit)) (ts ++ .close false :: rest)
      have hread := hread stack (.close false :: rest) hroom
      rw [List.cons_append, List.append_assoc]
      exact ⟨hopen.1.trans hread, hopen.2.trans hread⟩
  | item h ih =>
      intro stack rest hroom
      -- Inside the list the stack is one deeper.
      refine (ih (.arr [] :: stack) rest ?_).2
      rw [List.length_cons]
      omega
  | @moreItems n vs v ts ts' hs h ihs ih =>
      intro stack rest hroom
      have hread := ihs stack (.comma :: (ts' ++ rest)) hroom
      have hlast := (ih (.arr vs.reverse :: stack) rest (by rw [List.length_cons]; omega)).1
      rw [List.append_assoc, List.cons_append, List.reverse_append]
      exact hread.trans hlast
  | @entry n v ts key h ih =>
      refine ⟨key, fun stack rest hroom => ?_⟩
      have hread := (ih (.obj [] key :: stack) rest (by rw [List.length_cons]; omega)).1
      have hkey : parseStep (.key [] true, stack) (.str key.toList)
          = some (.colon [] key, stack) := by
        rw [parseStep, String.ofList_toList]
      exact (parse_cons rfl hkey _).trans hread
  | @moreEntries n es v ts ts' hs key h ihs ih =>
      obtain ⟨last, hread⟩ := ihs
      refine ⟨key, fun stack rest hroom => ?_⟩
      have hkey : parseStep (.key es false, stack) (.str key.toList)
          = some (.colon es key, stack) := by
        rw [parseStep, String.ofList_toList]
      have hlast := (ih (.obj es key :: stack) rest (by rw [List.length_cons]; omega)).1
      rw [List.append_assoc]
      exact (hread stack _ hroom).trans ((parse_cons rfl hkey _).trans hlast)

/-! ## Texts -/

/-- A JSON text of a value, nested at most `n` deep. -/
def Text (n : Nat) (v : Value) (text : String) : Prop :=
  ∃ ts, Phrase n (.value v) ts ∧ TokenText ts text.toList

/-- Every text of a value is read as that value, by a loader that goes as deep. -/
theorem loads_of_text {n : Nat} {v : Value} {text : String} (h : Text n v text)
    (hn : n ≤ limit) : loads limit text = .ok v := by
  obtain ⟨ts, hphrase, htext⟩ := h
  have hread := (@Phrase.read limit _ _ _ hphrase [] []
    (by rw [List.length_nil]; omega)).1
  rw [List.append_nil] at hread
  rw [loads, lex_of_tokenText htext]
  exact hread

end Parse

end Json
