import CssSelectors.Proofs.Tokens.Escapes
import CssSelectors.Proofs.Tokens.Sources

/-!
# Where addresses end

An address that is not quoted ends behind the first closing parenthesis that is not escaped,
whether it is spoilt or not. It is not spoilt where it is a run of code points and escapes with
blanks around it and nothing else, and then the token holds what the run decodes to.
-/

namespace CssSelectors

open CodePoint

namespace CodePoint

/-- What may stand for itself in an address. -/
def isAddress (c : Char) : Bool :=
  !isBlank c && c ≠ '"' && c ≠ '\'' && c ≠ '(' && c ≠ '\\'

/-- What may stand for itself in front of the end of an address, spoilt or not. -/
def isInside (c : Char) : Bool :=
  c ≠ ')'

end CodePoint

namespace Lexeme

variable {c : Char} {text value rest : List Char}

/-- Where an address closes: at a parenthesis, or at the end of the text. -/
def Closes (text : List Char) : Prop :=
  ∀ c ∈ text.head?, c = ')'

/-! ## The end of an address -/

theorem startsEscape_eq_false_of_ne (h : c ≠ '\\') (text : List Char) :
    startsEscape (c :: text) = false :=
  Bool.eq_false_iff.2 fun hescape => h (startsEscape_cons_iff.1 hescape).1

theorem ne_of_isBlank (h : isBlank c = true) : c ≠ ')' ∧ c ≠ '\\' := by
  constructor
  · rintro rfl
    cases h
  · rintro rfl
    cases h

theorem skipBadUrl_of_ne (hparen : c ≠ ')') (hescape : startsEscape (c :: text) = false) :
    skipBadUrl (c :: text) = skipBadUrl text := by
  rw [skipBadUrl, if_neg hparen, if_neg (by simp [hescape])]

theorem skipBadUrl_of_startsEscape (h : startsEscape (c :: text) = true) :
    skipBadUrl (c :: text) = skipBadUrl (escape text).2 := by
  obtain ⟨rfl, -⟩ := startsEscape_cons_iff.1 h
  rw [skipBadUrl, if_neg (by decide), if_pos h]

theorem skipBadUrl_of_isBlank (h : isBlank c = true) : skipBadUrl (c :: text) = skipBadUrl text :=
  skipBadUrl_of_ne (ne_of_isBlank h).1 (startsEscape_eq_false_of_ne (ne_of_isBlank h).2 text)

theorem skipBadUrl_dropWhile_isBlank (text : List Char) :
    skipBadUrl (text.dropWhile isBlank) = skipBadUrl text := by
  induction text with
  | nil => rfl
  | cons c text ih =>
      by_cases hc : isBlank c = true
      · rw [List.dropWhile_cons_of_pos hc, ih, skipBadUrl_of_isBlank hc]
      · rw [List.dropWhile_cons_of_neg hc]

theorem urlEnd_snd (text : List Char) : (urlEnd text).2 = skipBadUrl text := by
  rw [← skipBadUrl_dropWhile_isBlank]
  unfold urlEnd
  split
  · next heq => rw [heq, skipBadUrl]
  · next c rest heq =>
      rw [heq]
      split
      · next hc => rw [skipBadUrl, if_pos hc]
      · rfl

theorem urlBody_snd (text : List Char) : (urlBody text).2 = skipBadUrl text := by
  fun_induction urlBody text with
  | case1 => rw [skipBadUrl]
  | case2 => rw [skipBadUrl, if_pos rfl]
  | case3 c rest _ hblank => rw [urlEnd_snd, skipBadUrl_of_isBlank hblank]
  | case4 c rest hparen _ hspoilt =>
      have hbackslash : c ≠ '\\' := by
        rintro rfl
        simp at hspoilt
      rw [skipBadUrl_of_ne hparen (startsEscape_eq_false_of_ne hbackslash rest)]
  | case5 rest _ _ _ _ hescape ih => rw [skipBadUrl_of_startsEscape hescape, ← ih, prepend]
  | case6 rest hparen _ _ hescape =>
      rw [skipBadUrl_of_ne hparen (Bool.eq_false_iff.2 hescape)]
  | case7 c rest hparen _ _ hbackslash ih =>
      rw [skipBadUrl_of_ne hparen (startsEscape_eq_false_of_ne hbackslash rest), ← ih, prepend]

theorem url_snd (text : List Char) : (url text).2 = skipBadUrl text := by
  rw [url, urlBody_snd, skipBadUrl_dropWhile_isBlank]

theorem exists_closes (text : List Char) :
    ∃ skipped stop, Decodes isInside text skipped stop ∧ Closes stop ∧
      skipBadUrl text = stop.tail := by
  fun_induction skipBadUrl text with
  | case1 => exact ⟨[], [], .nil, by rintro _ ⟨⟩, rfl⟩
  | case2 rest => exact ⟨[], ')' :: rest, .nil, by rintro _ ⟨⟩; rfl, rfl⟩
  | case3 c rest _ hescape ih =>
      obtain ⟨skipped, stop, hdecodes, hcloses, htail⟩ := ih
      exact ⟨_, stop, .escape hescape hdecodes, hcloses, htail⟩
  | case4 c rest hparen hescape ih =>
      obtain ⟨skipped, stop, hdecodes, hcloses, htail⟩ := ih
      exact ⟨c :: skipped, stop, .plain (by simpa [isInside] using hparen)
        (Bool.eq_false_iff.2 hescape) hdecodes, hcloses, htail⟩

theorem Closes.halts (h : Closes text) : Halts isInside text := by
  intro c hc
  obtain rfl := h c hc
  obtain ⟨rest, rfl⟩ := List.head?_eq_some_iff.1 hc
  exact ⟨by decide, by simp [startsEscape]⟩

/-! ## What an address holds -/

theorem urlEnd_fst_iff :
    (urlEnd text).1 = some value ↔ value = [] ∧ Closes (text.dropWhile isBlank) := by
  unfold urlEnd
  split
  · next heq => simp [heq, Closes, eq_comm]
  · next c rest heq =>
      rw [heq]
      by_cases hc : c = ')'
      · simp [hc, Closes, eq_comm]
      · simp [hc, Closes]

theorem urlBody_of_isAddress (haddress : isAddress c = true) (hinside : isInside c = true) :
    urlBody (c :: text) = prepend c (urlBody text) := by
  obtain ⟨⟨⟨⟨hblank, hdouble⟩, hsingle⟩, hopen⟩, hbackslash⟩ :
      (((isBlank c = false ∧ c ≠ '"') ∧ c ≠ '\'') ∧ c ≠ '(') ∧ c ≠ '\\' := by
    simpa [isAddress] using haddress
  rw [urlBody, if_neg (by simpa [isInside] using hinside), if_neg (by simp [hblank]),
    if_neg (by simp [hdouble, hsingle, hopen]), if_neg hbackslash]

theorem urlBody_of_startsEscape (h : startsEscape (c :: text) = true) :
    urlBody (c :: text) = prepend (escape text).1 (urlBody (escape text).2) := by
  obtain ⟨rfl, -⟩ := startsEscape_cons_iff.1 h
  rw [urlBody, if_neg (by decide), if_neg (by decide), if_neg (by decide), if_pos rfl, if_pos h]

/-- The address is what the longest run decodes to if nothing but blanks stands between it and the
place where the address closes. -/
theorem urlBody_fst_iff :
    (urlBody text).1 = some value ↔
      ∃ rest, Decodes (fun c => isAddress c && isInside c) text value rest ∧
        Closes (rest.dropWhile isBlank) := by
  constructor
  · intro h
    fun_induction urlBody text generalizing value with
    | case1 =>
        cases h
        exact ⟨[], .nil, by rintro _ ⟨⟩⟩
    | case2 rest =>
        cases h
        exact ⟨_, .nil, by rintro _ ⟨⟩; rfl⟩
    | case3 c rest _ hblank =>
        obtain ⟨rfl, hcloses⟩ := urlEnd_fst_iff.1 h
        exact ⟨_, .nil, by rwa [List.dropWhile_cons_of_pos hblank]⟩
    | case4 => cases h
    | case5 rest _ _ _ _ hescape =>
        rename_i ih
        obtain ⟨tail, htail, rfl⟩ := Option.map_eq_some_iff.1 h
        obtain ⟨rest, hdecodes, hcloses⟩ := ih htail
        exact ⟨rest, .escape hescape hdecodes, hcloses⟩
    | case6 => cases h
    | case7 c rest hparen hblank hspoilt hbackslash ih =>
        obtain ⟨tail, htail, rfl⟩ := Option.map_eq_some_iff.1 h
        obtain ⟨rest, hdecodes, hcloses⟩ := ih htail
        refine ⟨rest, .plain ?_ (startsEscape_eq_false_of_ne hbackslash _) hdecodes, hcloses⟩
        simp_all [isAddress, isInside]
  · rintro ⟨rest, hdecodes, hcloses⟩
    induction hdecodes with
    | @nil rest =>
        cases rest with
        | nil => rw [urlBody]
        | cons c rest =>
            by_cases hblank : isBlank c = true
            · rw [List.dropWhile_cons_of_pos hblank] at hcloses
              rw [urlBody, if_neg (ne_of_isBlank hblank).1, if_pos hblank]
              exact urlEnd_fst_iff.2 ⟨rfl, hcloses⟩
            · rw [List.dropWhile_cons_of_neg hblank] at hcloses
              rw [urlBody, if_pos (hcloses c rfl)]
    | plain h _ _ ih =>
        obtain ⟨haddress, hinside⟩ := Bool.and_eq_true_iff.1 h
        rw [urlBody_of_isAddress haddress hinside, prepend, ih hcloses, Option.map_some]
    | escape h _ ih => rw [urlBody_of_startsEscape h, prepend, ih hcloses, Option.map_some]

/-- In front of `stop` stand blanks, a run that decodes to the value, and blanks. -/
def WrapsAddress (body stop value : List Char) : Prop :=
  ∃ before middle after, body = before ++ (middle ++ after) ∧
    (∀ c ∈ before, isBlank c = true) ∧ (∀ c ∈ after, isBlank c = true) ∧
      Decodes isAddress (middle ++ (after ++ stop)) value (after ++ stop)

variable {blanks stop skipped : List Char}

theorem decodes_blanks (h : ∀ c ∈ blanks, isBlank c = true) (rest : List Char) :
    Decodes isInside (blanks ++ rest) blanks rest := by
  induction blanks with
  | nil => exact .nil
  | cons c blanks ih =>
      obtain ⟨hc, hblanks⟩ := List.forall_mem_cons.1 h
      obtain ⟨hparen, hbackslash⟩ := ne_of_isBlank hc
      exact .plain (by simpa [isInside] using hparen) (startsEscape_eq_false_of_ne hbackslash _)
        (ih hblanks)

theorem Closes.dropWhile_isBlank (h : Closes stop) : stop.dropWhile isBlank = stop := by
  cases stop with
  | nil => rfl
  | cons c stop =>
      obtain rfl := h c rfl
      rfl

theorem exists_decodes_of_blanks (hblanks : ∀ c ∈ blanks, isBlank c = true) (hstop : Closes stop)
    (h : Decodes isInside (blanks ++ text) skipped stop) :
    ∃ skipped, Decodes isInside text skipped stop := by
  induction blanks generalizing skipped with
  | nil => exact ⟨skipped, h⟩
  | cons c blanks ih =>
      obtain ⟨hc, hblanks⟩ := List.forall_mem_cons.1 hblanks
      obtain ⟨hparen, hbackslash⟩ := ne_of_isBlank hc
      cases h with
      | nil => exact absurd (hstop c rfl) hparen
      | plain _ _ tail => exact ih hblanks tail
      | escape h _ => exact absurd (startsEscape_cons_iff.1 h).1 hbackslash

end Lexeme

theorem Decodes.and {allowed allowed' : Char → Bool} {text value value' rest rest' : List Char}
    (h : Decodes allowed text value rest) (h' : Decodes allowed' text value' rest')
    (hrest : rest' <:+ rest) : Decodes (fun c => allowed c && allowed' c) text value rest := by
  induction h generalizing value' with
  | nil => exact .nil
  | @plain c text value rest hc no_escape tail ih =>
      cases h' with
      | nil => exact absurd (hrest.trans tail.suffix).length_le (by simp)
      | plain hc' _ tail' => exact .plain (by simp [hc, hc']) no_escape (ih tail' hrest)
      | escape hescape _ => simp [hescape] at no_escape
  | @escape c text value rest hescape tail ih =>
      cases h' with
      | nil =>
          have hsuffix := (hrest.trans tail.suffix).trans (Lexeme.escape_suffix text)
          exact absurd hsuffix.length_le (by simp)
      | plain _ no_escape _ => simp [hescape] at no_escape
      | escape _ tail' => exact .escape hescape (ih tail' hrest)

/-- A run of an address begins with no blank, so blanks in front of its end may be left out. -/
theorem Decodes.exists_dropWhile {text value rest : List Char}
    (h : Decodes (fun c => isAddress c && isInside c) text value rest)
    (hrest : Lexeme.Closes (rest.dropWhile isBlank)) :
    ∃ rest, Decodes (fun c => isAddress c && isInside c) (text.dropWhile isBlank) value rest ∧
      Lexeme.Closes (rest.dropWhile isBlank) := by
  cases h with
  | nil => exact ⟨_, .nil, by rwa [hrest.dropWhile_isBlank]⟩
  | plain hc no_escape tail =>
      rw [List.dropWhile_cons_of_neg (by simp_all [isAddress])]
      exact ⟨rest, .plain hc no_escape tail, hrest⟩
  | @escape c _ _ _ hescape tail =>
      obtain ⟨rfl, -⟩ := Lexeme.startsEscape_cons_iff.1 hescape
      rw [List.dropWhile_cons_of_neg (by decide)]
      exact ⟨rest, .escape hescape tail, hrest⟩

namespace Lexeme

variable {body inside value stop skipped : List Char}

theorem all_isBlank_takeWhile (text : List Char) : ∀ c ∈ text.takeWhile isBlank, isBlank c = true :=
  List.all_eq_true.1 List.all_takeWhile

theorem wrapsAddress_of_url (hinside : Decodes isInside (body ++ stop) skipped stop)
    (hstop : Closes stop) (h : (url (body ++ stop)).1 = some value) :
    WrapsAddress body stop value := by
  generalize hwhole : body ++ stop = inside at hinside h
  rw [url, urlBody_fst_iff] at h
  obtain ⟨rest, hrun, hrest⟩ := h
  -- The blanks, the run and the blanks behind it reach the same place.
  have hreach : Decodes isInside inside
      (inside.takeWhile isBlank ++ (value ++ rest.takeWhile isBlank)) (rest.dropWhile isBlank) := by
    have hbefore := decodes_blanks (all_isBlank_takeWhile inside) (inside.dropWhile isBlank)
    have hafter := decodes_blanks (all_isBlank_takeWhile rest) (rest.dropWhile isBlank)
    rw [List.takeWhile_append_dropWhile] at hbefore hafter
    exact hbefore.append ((hrun.mono fun c hc => (Bool.and_eq_true_iff.1 hc).2).append hafter)
  obtain ⟨-, rfl⟩ := hreach.unique hinside hrest.halts hstop.halts
  obtain ⟨middle, hmiddle⟩ := hrun.suffix
  have hsplit : middle ++ (rest.takeWhile isBlank ++ rest.dropWhile isBlank) =
      inside.dropWhile isBlank := by
    rw [List.takeWhile_append_dropWhile, hmiddle]
  refine ⟨inside.takeWhile isBlank, middle, rest.takeWhile isBlank, ?_,
    all_isBlank_takeWhile inside, all_isBlank_takeWhile rest, ?_⟩
  · rw [← List.append_left_inj (rest.dropWhile isBlank)]
    calc body ++ rest.dropWhile isBlank
        = inside.takeWhile isBlank ++ inside.dropWhile isBlank := by
          rw [hwhole, List.takeWhile_append_dropWhile]
      _ = _ := by
          rw [← hsplit]
          simp only [List.append_assoc]
  · rw [hsplit, List.takeWhile_append_dropWhile]
    exact hrun.mono fun c hc => (Bool.and_eq_true_iff.1 hc).1

theorem url_of_wrapsAddress (hinside : Decodes isInside (body ++ stop) skipped stop)
    (hstop : Closes stop) (h : WrapsAddress body stop value) :
    (url (body ++ stop)).1 = some value := by
  obtain ⟨before, middle, after, rfl, hbefore, hafter, hrun⟩ := h
  simp only [List.append_assoc] at hinside ⊢
  obtain ⟨skipped, hinside⟩ := exists_decodes_of_blanks hbefore hstop hinside
  have hboth := hrun.and hinside (List.suffix_append after stop)
  rw [url, List.dropWhile_append_of_pos hbefore, urlBody_fst_iff]
  apply hboth.exists_dropWhile
  rwa [List.dropWhile_append_of_pos hafter, hstop.dropWhile_isBlank]

theorem url_fst_iff (hinside : Decodes isInside (body ++ stop) skipped stop) (hstop : Closes stop) :
    (url (body ++ stop)).1 = some value ↔ WrapsAddress body stop value :=
  ⟨wrapsAddress_of_url hinside hstop, url_of_wrapsAddress hinside hstop⟩

end Lexeme

/-! ## Tokens of addresses -/

namespace Lexeme

theorem opensQuoted_eq_false {inside : List Char}
    (h : ∀ c ∈ (inside.dropWhile isBlank).head?, c ≠ '"' ∧ c ≠ '\'') :
    opensQuoted inside = false := by
  unfold opensQuoted
  split
  · rfl
  · next c rest heq =>
      rw [heq] at h
      simpa using h c rfl

theorem exists_stop {text : List Char} {inside middle : Nat} (hinside : inside ≤ text.length)
    (hmiddle : middle ≤ text.length) (hrest : text.drop middle = skipBadUrl (text.drop inside)) :
    ∃ stop skipped, inside ≤ stop ∧
      Decodes isInside (text.drop inside) skipped (text.drop stop) ∧ Closes (text.drop stop) ∧
        (text[stop]? = some ')' ∧ middle = stop + 1 ∨ stop = text.length ∧ middle = stop) := by
  obtain ⟨skipped, rest, hdecodes, hcloses, hend⟩ := exists_closes (text.drop inside)
  obtain ⟨stop, rfl, hstart, hstop⟩ := exists_drop_eq hinside hdecodes.suffix
  refine ⟨stop, skipped, hstart, hdecodes, hcloses, ?_⟩
  rw [hend, List.tail_drop] at hrest
  have hlengths := congrArg List.length hrest
  rw [List.length_drop, List.length_drop] at hlengths
  rcases Nat.lt_or_eq_of_le hstop with hlt | heq
  · have hhead := List.head?_drop.trans (List.getElem?_eq_getElem hlt)
    have hparen := hcloses text[stop] hhead
    exact .inl ⟨hparen ▸ List.getElem?_eq_getElem hlt, by omega⟩
  · exact .inr ⟨heq, by omega⟩

theorem isIdentStart_of_toLower {c : Char} (h : c.toLower = 'u') : isIdentStart c = true := by
  unfold Char.toLower at h
  split at h
  · next hupper =>
      have hc : c.isAlpha = true := by
        delta Char.isAlpha Char.isUpper
        simpa using .inl hupper
      simp [isIdentStart, hc]
  · subst h
    decide

theorem startsName_of_url {c : Char} {text name rest : List Char}
    (hread : ident (c :: text) = (name, rest))
    (hurl : equalsIgnoringCase (String.ofList name) "url" = true) :
    (isIdentStart c || startsEscape (c :: text)) = true := by
  rw [ident] at hread
  split at hread
  · next hc =>
      obtain ⟨rfl, -⟩ := Prod.mk.inj hread
      have hlower : c.toLower = 'u' := by
        have hlist := of_decide_eq_true hurl
        rw [String.toList_ofList, List.map_cons] at hlist
        exact (List.cons.inj hlist).1
      rw [isIdentStart_of_toLower hlower, Bool.true_or]
  · split at hread
    · next hescape => rw [hescape, Bool.or_true]
    · obtain ⟨rfl, -⟩ := Prod.mk.inj hread
      simp [equalsIgnoringCase] at hurl

theorem scan_url {c : Char} {text name inside : List Char}
    (hread : ident (c :: text) = (name, '(' :: inside))
    (hurl : equalsIgnoringCase (String.ofList name) "url" = true)
    (hquote : opensQuoted inside = false) : scan c text = scanUrl inside := by
  rw [scan_of_startsName (startsName_of_url hread hurl), scanIdentLike_of_paren hread, hurl, hquote]
  rfl

theorem scanUrl_fst (text : List Char) :
    (scanUrl text).1 = .atom .badUrl ∨
      ∃ value, (scanUrl text).1 = .atom (.url value) := by
  unfold scanUrl
  split
  · exact .inr ⟨_, rfl⟩
  · exact .inl rfl

theorem scanUrl_fst_iff {text : List Char} {value : String} :
    (scanUrl text).1 = .atom (.url value) ↔ (url text).1 = some value.toList := by
  unfold scanUrl
  split
  · next heq => simp [heq, String.ext_iff]
  · next heq => simp [heq]

theorem scanUrl_snd (text : List Char) : (scanUrl text).2 = skipBadUrl text := by
  rw [← url_snd]
  unfold scanUrl
  split
  · next heq => rw [heq]
  · next heq => rw [heq]

end Lexeme

/-- A token whose text begins with a name that spells `url` and a parenthesis without a quote behind
it is an address. It ends behind the first closing parenthesis that is not escaped, or with the
text, and it is not spoilt just where blanks and what it decodes to are all that is inside. -/
theorem tokenize_urls (text : String) {level : List Token} {t : Token} {name : List Char}
    {paren : Nat} (hlevel : Token.Level (tokenize text) level) (ht : t ∈ level)
    (hname : Decodes isIdent (text.toList.drop t.span.start) name (text.toList.drop paren))
    (hurl : equalsIgnoringCase (String.ofList name) "url" = true)
    (hparen : text.toList[paren]? = some '(')
    (hquote : ∀ c ∈ ((text.toList.drop (paren + 1)).dropWhile isBlank).head?, c ≠ '"' ∧ c ≠ '\'') :
    ∃ stop skipped, paren < stop ∧
      Decodes isInside (text.toList.drop (paren + 1)) skipped (text.toList.drop stop) ∧
      (text.toList[stop]? = some ')' ∧ t.span.stop = stop + 1 ∨
        stop = text.length ∧ t.span.stop = stop) ∧
      (t = .atom .badUrl t.span ∨ ∃ value, t = .atom (.url value) t.span) ∧
      ∀ value, t = .atom (.url value) t.span ↔
        Lexeme.WrapsAddress (text.toList.extract (paren + 1) stop) (text.toList.drop stop)
          value.toList := by
  obtain ⟨hlength, hopen⟩ := List.getElem?_eq_some_iff.1 hparen
  have hinside : text.toList.drop paren = '(' :: text.toList.drop (paren + 1) := by
    rw [List.drop_eq_getElem_cons hlength, hopen]
  rw [hinside] at hname
  have hread := Lexeme.ident_of_decodes hname
    (halts_cons_iff.2 ⟨by decide, Lexeme.startsEscape_eq_false_of_ne (by decide) _⟩)
  obtain ⟨c, tail, middle, hsource, hscan, -, hle, hatom⟩ | rfl := hlevel.exists_scan ht
  case inr =>
    have hnil : text.toList.drop text.length = [] :=
      List.drop_eq_nil_of_le (Nat.le_of_eq String.length_toList)
    have hsuffix := hname.suffix
    rw [Token.span, hnil] at hsuffix
    cases List.suffix_nil.1 hsuffix
  rw [hsource] at hread
  rw [Lexeme.scan_url hread hurl (Lexeme.opensQuoted_eq_false hquote)] at hscan
  have hrest := Lexeme.scanUrl_snd (text.toList.drop (paren + 1))
  have hlexeme := congrArg Prod.fst hscan
  rw [hscan] at hrest
  obtain ⟨stop, skipped, hstart, hdecodes, hcloses, hspan⟩ :=
    Lexeme.exists_stop hlength hle hrest
  rw [String.length_toList] at hspan
  have hkind := Lexeme.scanUrl_fst (text.toList.drop (paren + 1))
  rw [hlexeme] at hkind
  obtain ⟨a, span, rfl⟩ : ∃ a span, t = .atom a span := by
    cases t with
    | atom a span => exact ⟨a, span, rfl⟩
    | function => rcases hkind with hkind | ⟨value, hkind⟩ <;> cases hkind
  refine ⟨stop, skipped, hstart, hdecodes, ?_, ?_, fun value => ?_⟩
  · rwa [← hatom a span rfl] at hspan
  · exact hkind.imp (fun h => by cases h; rfl) fun ⟨value, h⟩ => ⟨value, by cases h; rfl⟩
  · have hbody := drop_eq_extract_append text.toList hstart
    rw [hbody] at hdecodes hlexeme
    rw [← Lexeme.url_fst_iff hdecodes hcloses, ← Lexeme.scanUrl_fst_iff, hlexeme]
    simp [Token.lexeme, Token.span]

/-- Escapes in the name, of the parenthesis, and with a blank behind the number. -/
theorem tokenize_urls_escaped :
    tokenize "f(\\75RL( a\\)\\62  )x)" =
        [.function "f" [.atom (.url "a)b") ⟨2, 18⟩, .atom (.ident "x") ⟨18, 19⟩] ⟨0, 20⟩,
          .atom .eof ⟨20, 20⟩] ∧
      Decodes isIdent "\\75RL( a\\)\\62  )x)".toList ['u', 'R', 'L'] "( a\\)\\62  )x)".toList ∧
      Lexeme.WrapsAddress " a\\)\\62  ".toList ")x)".toList "a)b".toList := by
  let token : Token := .atom (.url "a)b") ⟨2, 18⟩
  have htokens : tokenize "f(\\75RL( a\\)\\62  )x)" =
      [.function "f" [token, .atom (.ident "x") ⟨18, 19⟩] ⟨0, 20⟩, .atom .eof ⟨20, 20⟩] := by
    with_unfolding_all rfl
  have hlevel : Token.Level (tokenize "f(\\75RL( a\\)\\62  )x)")
      [token, .atom (.ident "x") ⟨18, 19⟩] := by
    rw [htokens]
    exact .arguments .outermost List.mem_cons_self
  have hname :
      Decodes isIdent "\\75RL( a\\)\\62  )x)".toList ['u', 'R', 'L'] "( a\\)\\62  )x)".toList := by
    have hread : Lexeme.ident "\\75RL( a\\)\\62  )x)".toList =
        (['u', 'R', 'L'], "( a\\)\\62  )x)".toList) := by with_unfolding_all rfl
    have hdecodes := Lexeme.decodes_ident "\\75RL( a\\)\\62  )x)".toList
    rwa [hread] at hdecodes
  obtain ⟨stop, skipped, -, -, hspan, -, hvalue⟩ :=
    @tokenize_urls "f(\\75RL( a\\)\\62  )x)" _ _ _ 7 hlevel List.mem_cons_self hname
      (by decide) rfl (by rintro c ⟨⟩; decide)
  obtain ⟨-, hstop⟩ | ⟨rfl, hstop⟩ := hspan
  · obtain rfl : 17 = stop := Nat.succ.inj hstop
    exact ⟨htokens, hname, (hvalue "a)b").1 rfl⟩
  · cases hstop

end CssSelectors
