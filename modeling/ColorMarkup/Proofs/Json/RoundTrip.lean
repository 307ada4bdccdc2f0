import ColorMarkup.Proofs.Json.Quote
/-!
# An object that is written is read back

An object of texts and whole numbers is written in ASCII, one member on a line. It is read
back member by member, a depth as the number of its bits. What is written for one value is
read with anything behind it that cannot go on with a number, which is what the writer puts
there: a comma, or the end of the line.

Results:
* `scalar?_ofInt`: a whole number is read back.
* `IsFlat.reads`: what holds of the text of one value.
* `members?_member`, `members?_written`: one member is read, and then all of them.
* `read?_written`: the object is read back, and its nesting is not too deep.
-/
namespace ColorMarkup.Json

variable {fuel limit depth : Nat} {rest : Text}

/-! ## Whole numbers -/

/-- The text does not go on with a number that stands in front of it. -/
def EndsNumber (t : Text) : Prop :=
  ∀ c ∈ t.head?, isDigit c = false ∧ c ≠ point '.' ∧ c ≠ point 'e' ∧ c ≠ point 'E'

theorem isDigit_ofByte (b : UInt8) : isDigit (CodePoint.ofByte b) = Decimal.isDigit b := by
  simp only [isDigit, Decimal.isDigit, UInt8.le_iff_toNat_le, CodePoint.ofByte]
  rfl

theorem isDigit_ofNat (n : Nat) : ∀ c ∈ (Decimal.ofNat n).toText, isDigit c = true := by
  intro c hc
  rcases List.mem_map.1 hc with ⟨b, hb, rfl⟩
  rw [isDigit_ofByte]
  exact Decimal.ofNat_isDigit n b hb

theorem valueOf_toText (b : Bytes) :
    valueOf b.toText = Decimal.valueOf 10 Decimal.digitValue b := by
  rw [valueOf, Bytes.toText, List.foldl_map]
  rfl

theorem digits_append {ds : Text} (hds : ∀ c ∈ ds, isDigit c = true) (hrest : EndsNumber rest) :
    digits (ds ++ rest) = (ds, rest) := by
  have htake : rest.takeWhile isDigit = [] ∧ rest.dropWhile isDigit = rest := by
    cases rest with
    | nil => exact ⟨rfl, rfl⟩
    | cons c t =>
      have hc := (hrest c rfl).1
      exact ⟨by simp [hc], by simp [hc]⟩
  rw [digits, List.takeWhile_append_of_pos hds, List.dropWhile_append_of_pos hds, htake.1, htake.2,
    List.append_nil]

theorem whole?_ofNat (n : Nat) (hrest : EndsNumber rest) :
    whole? ((Decimal.ofNat n).toText ++ rest) = some ((Decimal.ofNat n).toText, rest) := by
  rcases Nat.eq_zero_or_pos n with rfl | hpos
  · have hzero : (Decimal.ofNat 0).toText = [point '0'] := by
      rw [Decimal.ofNat_eq]
      rfl
    rw [hzero, List.singleton_append, whole?, if_pos rfl]
  · have hhead := Decimal.ofNat_head_ne_zero hpos
    have hdigits := digits_append (isDigit_ofNat n) hrest
    have hall := Decimal.ofNat_isDigit n
    cases htext : Decimal.ofNat n with
    | nil => exact absurd htext (Decimal.ofNat_ne_nil n)
    | cons d ds =>
      rw [htext] at hhead hdigits hall
      have hd : isDigit (CodePoint.ofByte d) = true := by
        rw [isDigit_ofByte]
        exact hall d List.mem_cons_self
      have hne : CodePoint.ofByte d ≠ point '0' := by
        intro heq
        apply hhead
        have hval := congrArg Fin.val heq
        exact congrArg some (UInt8.toNat_inj.1 hval)
      show whole? (CodePoint.ofByte d :: (Bytes.toText ds ++ rest)) = _
      rw [whole?, if_neg hne, if_pos hd]
      exact congrArg some hdigits

/-- A number without fraction and exponent is read back. -/
theorem number?_ofNat (negative : Bool) (n : Nat) (hrest : EndsNumber rest) :
    number? negative ((Decimal.ofNat n).toText ++ rest) =
      some (.int (if negative then -n else n), rest) := by
  have hfraction : fraction rest = (none, rest) := by
    cases rest with
    | nil => rfl
    | cons c t => exact if_neg (hrest c rfl).2.1
  have hexponent : exponent rest = (none, rest) := by
    cases rest with
    | nil => rfl
    | cons c t => exact if_neg (not_or.2 (hrest c rfl).2.2)
  have hvalue : valueOf (Decimal.ofNat n).toText = n := by
    rw [valueOf_toText, Decimal.valueOf_ofNat]
  rw [number?, whole?_ofNat n hrest, Option.map_some]
  simp only [hfraction, hexponent, hvalue]

/-- The first two code points of a word are no digits. -/
theorem words_start : ∀ p ∈ words, 2 ≤ (Text.ofString p.1).length ∧
    ((Text.ofString p.1).take 2).all (fun c => !isDigit c) = true := by
  decide

/-- No word stands in front of what has a digit in one of its first two places. -/
theorem words_none {t : Text} (h : ∃ c ∈ t.take 2, isDigit c = true) :
    (words.findSome? fun (w, v) => (after? w t).map (v, ·)) = none := by
  rw [List.findSome?_eq_none_iff]
  intro p hp
  have hafter : after? p.1 t = none := by
    refine if_neg fun hprefix => ?_
    rcases List.isPrefixOf_iff_prefix.1 hprefix with ⟨u, rfl⟩
    rcases words_start p hp with ⟨hlen, hstart⟩
    rcases h with ⟨c, hc, hdigit⟩
    rw [List.take_append_of_le_length hlen] at hc
    have hnot := List.all_eq_true.1 hstart c hc
    rw [hdigit] at hnot
    cases hnot
  show (after? p.1 t).map _ = none
  rw [hafter]
  rfl

/-- A whole number is read back. -/
theorem scalar?_ofInt (n : Int) (hrest : EndsNumber rest) :
    scalar? ((Decimal.ofInt n).toText ++ rest) = some (.int n, rest) := by
  have hdigit := isDigit_ofNat n.natAbs
  cases htext : (Decimal.ofNat n.natAbs).toText with
  | nil => exact absurd (List.map_eq_nil_iff.1 htext) (Decimal.ofNat_ne_nil _)
  | cons c t =>
    have hc : isDigit c = true := hdigit c (by rw [htext]; exact List.mem_cons_self)
    have hnumber := fun negative => number?_ofNat negative n.natAbs hrest
    rw [htext] at hnumber
    unfold Decimal.ofInt
    split
    · next hneg =>
      have hminus : Bytes.toText (0x2D :: Decimal.ofNat n.natAbs) ++ rest =
          point '-' :: (c :: t ++ rest) := by
        rw [← htext]
        rfl
      rw [hminus, scalar?, words_none ⟨c, by simp, hc⟩]
      dsimp only
      rw [if_pos rfl, hnumber true, if_pos rfl]
      congr
      omega
    · next hpos =>
      have hne : c ≠ point '-' := by
        rintro rfl
        cases hc
      rw [htext, List.cons_append, scalar?, words_none ⟨c, by simp, hc⟩]
      dsimp only
      rw [if_neg hne, ← List.cons_append, hnumber false, if_neg (by decide)]
      congr
      omega

/-! ## One value -/

/-- Does the code point open and close nothing? -/
def isInert (c : CodePoint) : Bool :=
  c != point '[' && c != point '\x7b' && c != point ']' && c != point '\x7d' && c != point '"'

theorem isDeeper_inert {s : Text} (h : s.all isInert = true) :
    isDeeper limit depth false (s ++ rest) = isDeeper limit depth false rest := by
  induction s with
  | nil => rfl
  | cons c s ih =>
    rw [List.all_cons, Bool.and_eq_true] at h
    have hc := h.1
    simp only [isInert, Bool.and_eq_true, bne_iff_ne] at hc
    rcases hc with ⟨⟨⟨⟨hlist, hobject⟩, hlist'⟩, hobject'⟩, hquote⟩
    rw [List.cons_append, isDeeper.eq_def]
    dsimp only
    rw [if_neg (not_or.2 ⟨hlist, hobject⟩), if_neg (not_or.2 ⟨hlist', hobject'⟩),
      beq_eq_false_iff_ne.2 hquote, ih h.2]

theorem skipSpace_of_head {c : CodePoint} (h : isSpace c = false) (t : Text) :
    skipSpace (c :: t) = c :: t := by
  rw [skipSpace, List.dropWhile_cons_of_neg (by simp [h])]

/-- What is written is ASCII, opens nothing and does not start with a space, and the value is
read from it with anything behind it that does not go on with a number. -/
structure Reads (w : Written) (v : Value) : Prop where
  complete : w.refused = none
  ascii : w.text.isAscii = true
  flat : ∀ limit depth rest,
    isDeeper limit depth false (w.text ++ rest) = isDeeper limit depth false rest
  start : ∀ rest, skipSpace (w.text ++ rest) = w.text ++ rest
  read : ∀ fuel rest, EndsNumber rest → value? (fuel + 1) (w.text ++ rest) = some (v, rest)

/-- A digit and a minus have no other use. -/
theorem isDigit_facts {c : CodePoint} (h : isDigit c = true ∨ c = point '-') :
    c.val < 0x80 ∧ isInert c = true ∧ isSpace c = false := by
  have hval : c.val = 0x2D ∨ 0x30 ≤ c.val ∧ c.val ≤ 0x39 := by
    rcases h with h | rfl
    · simp only [isDigit, Bool.and_eq_true, decide_eq_true_eq] at h
      exact .inr h
    · exact .inl rfl
  have hne : ∀ d : CodePoint, d.val ≠ 0x2D → (d.val < 0x30 ∨ 0x39 < d.val) → c ≠ d := by
    rintro d hd hd' rfl
    omega
  refine ⟨by omega, ?_, ?_⟩
  · simp only [isInert, Bool.and_eq_true, bne_iff_ne]
    refine ⟨⟨⟨⟨?_, ?_⟩, ?_⟩, ?_⟩, ?_⟩ <;> exact hne _ (by decide) (by decide)
  · simp only [isSpace, Bool.or_eq_false_iff, beq_eq_false_iff_ne]
    omega

/-- What is written for a whole number has no code points but digits and a minus. -/
theorem ofInt_text (n : Int) : ∃ c t, (Decimal.ofInt n).toText = c :: t ∧
    ∀ d ∈ c :: t, isDigit d = true ∨ d = point '-' := by
  have hall : ∀ d ∈ (Decimal.ofInt n).toText, isDigit d = true ∨ d = point '-' := by
    intro d hd
    unfold Decimal.ofInt at hd
    split at hd
    · rcases List.mem_cons.1 hd with rfl | hd
      · exact .inr rfl
      · exact .inl (isDigit_ofNat _ d hd)
    · exact .inl (isDigit_ofNat _ d hd)
  cases h : (Decimal.ofInt n).toText with
  | nil =>
    have hnil : Decimal.ofInt n = [] := List.map_eq_nil_iff.1 h
    unfold Decimal.ofInt at hnil
    split at hnil
    · cases hnil
    · exact absurd hnil (Decimal.ofNat_ne_nil _)
  | cons c t => exact ⟨c, t, rfl, h ▸ hall⟩

theorem reads_ofInt (n : Int) : Reads (.all (Decimal.ofInt n).toText) (.int n) := by
  rcases ofInt_text n with ⟨c, t, htext, hall⟩
  have hc := isDigit_facts (hall c List.mem_cons_self)
  constructor
  · rfl
  · show Text.isAscii (Decimal.ofInt n).toText = true
    rw [htext, Text.isAscii, List.all_eq_true]
    intro d hd
    exact decide_eq_true (isDigit_facts (hall d hd)).1
  · intro limit depth rest
    show isDeeper limit depth false ((Decimal.ofInt n).toText ++ rest) = _
    rw [htext]
    exact isDeeper_inert (List.all_eq_true.2 fun d hd => (isDigit_facts (hall d hd)).2.1)
  · intro rest
    show skipSpace ((Decimal.ofInt n).toText ++ rest) = (Decimal.ofInt n).toText ++ rest
    rw [htext]
    exact skipSpace_of_head hc.2.2 _
  · intro fuel rest hrest
    have hread := scalar?_ofInt n hrest
    have hinert := hc.2.1
    simp only [isInert, Bool.and_eq_true, bne_iff_ne] at hinert
    rcases hinert with ⟨⟨⟨⟨hlist, hobject⟩, -⟩, -⟩, hquote⟩
    show value? (fuel + 1) ((Decimal.ofInt n).toText ++ rest) = _
    rw [htext, List.cons_append] at hread ⊢
    rw [value?, if_neg hquote, if_neg hlist, if_neg hobject, hread]

theorem reads_quote {t : Text} (h : t.Unpaired) : Reads (.all (quote t)) (.text t) where
  complete := rfl
  ascii := quote_isAscii t
  flat limit depth rest := isDeeper_quote limit depth t rest
  start rest := skipSpace_of_head (by decide) _
  read fuel rest _ := by
    have hquote : (Written.all (quote t)).text ++ rest =
        point '"' :: (t.flatMap escapePoint ++ point '"' :: rest) := by
      show quote t ++ rest = _
      rw [quote, List.cons_append, List.append_assoc]
      rfl
    rw [hquote, value?, if_pos rfl, text?_quote h]
    rfl

/-- The value is a whole number, a depth, or a text without pairs. -/
inductive IsFlat : Value → Prop where
  | int (n : Int) : IsFlat (.int n)
  | depth (d : Depth) : IsFlat (.depth d)
  | text {t : Text} (h : t.Unpaired) : IsFlat (.text t)

/-- What such a value is read as: a depth is the number of its bits. -/
def readAs : Value → Value
  | .depth d => .int d.bits
  | v => v

theorem IsFlat.reads {v : Value} (h : IsFlat v) (indent level : Nat) :
    Reads (write indent level v) (readAs v) := by
  cases h with
  | int n =>
    rw [write_int]
    exact reads_ofInt n
  | depth d =>
    have hbits : Decimal.ofNat d.bits = Decimal.ofInt d.bits := by
      rw [Decimal.ofInt, if_neg (by omega), Int.natAbs_natCast]
    have hwrite : write indent level (.depth d) = .all (Decimal.ofNat d.bits).toText := by
      simp [write, writeScalar]
    rw [hwrite, hbits]
    exact reads_ofInt d.bits
  | text h =>
    rw [write_text]
    exact reads_quote h

/-! ## Members -/

/-- The key of the member has no pairs, and its value is flat. -/
structure IsFlatMember (e : Text × Value) : Prop where
  key : e.1.Unpaired
  value : IsFlat e.2

def readMember (e : Text × Value) : Text × Value := (e.1, readAs e.2)

/-- The members that are stored one after the other. -/
def putAll (read es : List (Text × Value)) : List (Text × Value) :=
  es.foldl (fun read e => put e.1 e.2 read) read

/-- A line break is made of newlines and spaces. -/
theorem newline_all {p : CodePoint → Bool} (hline : p (point '\n') = true)
    (hspace : p (point ' ') = true) (indent level : Nat) : (newline indent level).all p = true := by
  rw [newline, List.all_cons, hline, Bool.true_and, List.all_replicate]
  simp [hspace]

theorem skipSpace_newline (indent level : Nat) (t : Text) :
    skipSpace (newline indent level ++ t) = skipSpace t := by
  have hall : ∀ c ∈ newline indent level, isSpace c = true :=
    List.all_eq_true.1 (newline_all (by decide) (by decide) indent level)
  rw [skipSpace, List.dropWhile_append_of_pos hall]
  rfl

/-- What is written in front of a member: nothing for the first one. -/
def separator (indent level : Nat) (first : Bool) : Text :=
  if first then [] else point ',' :: newline indent level

theorem separator_all {p : CodePoint → Bool} (hcomma : p (point ',') = true)
    (hline : p (point '\n') = true) (hspace : p (point ' ') = true) (indent level : Nat)
    (first : Bool) : (separator indent level first).all p = true := by
  cases first with
  | true => rfl
  | false =>
    show (point ',' :: newline indent level).all p = true
    rw [List.all_cons, hcomma, newline_all hline hspace]
    rfl

theorem writeMembers_nil (indent level : Nat) (first : Bool) :
    writeMembers indent level first [] = .all [] := by
  rw [writeMembers]

/-- A flat member is written, and the other members behind it. -/
theorem writeMembers_cons {e : Text × Value} (h : IsFlatMember e) (indent level : Nat)
    (first : Bool) (es : List (Text × Value)) :
    (writeMembers indent level first (e :: es)).text =
      separator indent level first ++ (quote e.1 ++ ([point ':', point ' '] ++
        ((write indent level e.2).text ++ (writeMembers indent level false es).text))) ∧
    (writeMembers indent level first (e :: es)).refused =
      (writeMembers indent level false es).refused := by
  have hv := (h.value.reads indent level).complete
  rw [writeMembers]
  simp only [Written.andThen, Written.all, hv, separator, List.append_assoc, and_self]

/-- Members that are not the first are written like the first ones, behind a separator. -/
theorem writeMembers_false {e : Text × Value} (h : IsFlatMember e) (indent level : Nat)
    (es : List (Text × Value)) :
    (writeMembers indent level false (e :: es)).text =
      separator indent level false ++ (writeMembers indent level true (e :: es)).text := by
  rw [(writeMembers_cons h indent level false es).1, (writeMembers_cons h indent level true es).1]
  rfl

/-- The first member starts with the quote of its key. -/
theorem writeMembers_start {e : Text × Value} (h : IsFlatMember e) (indent level : Nat)
    (es : List (Text × Value)) :
    ∃ t, (writeMembers indent level true (e :: es)).text = point '"' :: t :=
  ⟨_, (writeMembers_cons h indent level true es).1⟩

/-- What is written for members is complete and ASCII, and opens nothing. -/
theorem writeMembers_flat {es : List (Text × Value)} (h : ∀ e ∈ es, IsFlatMember e)
    (indent level : Nat) (first : Bool) :
    (writeMembers indent level first es).refused = none ∧
    (writeMembers indent level first es).text.isAscii = true ∧
    ∀ limit depth rest,
      isDeeper limit depth false ((writeMembers indent level first es).text ++ rest) =
        isDeeper limit depth false rest := by
  induction es generalizing first with
  | nil =>
    rw [writeMembers_nil]
    exact ⟨rfl, rfl, fun _ _ _ => rfl⟩
  | cons e es ih =>
    rcases List.forall_mem_cons.1 h with ⟨he, hes⟩
    rcases ih hes false with ⟨hcomplete, hascii, hflat⟩
    rcases writeMembers_cons he indent level first es with ⟨htext, hrefused⟩
    have hreads := he.value.reads indent level
    have hinert : (separator indent level first).all isInert = true :=
      separator_all (by decide) (by decide) (by decide) indent level first
    rw [htext, hrefused]
    refine ⟨hcomplete, ?_, fun limit depth rest => ?_⟩
    · have hkey := quote_isAscii e.1
      have hvalue := hreads.ascii
      simp only [Text.isAscii] at hkey hvalue hascii ⊢
      rw [List.all_append, List.all_append, List.all_append, List.all_append, hkey, hvalue, hascii,
        separator_all (by decide) (by decide) (by decide)]
      decide
    · simp only [List.append_assoc]
      rw [isDeeper_inert hinert, isDeeper_quote, isDeeper_inert (by decide), hreads.flat, hflat]

/-- There are no more members than code points are written for them. -/
theorem length_le_writeMembers {es : List (Text × Value)} (h : ∀ e ∈ es, IsFlatMember e)
    (indent level : Nat) (first : Bool) :
    es.length ≤ (writeMembers indent level first es).text.length := by
  induction es generalizing first with
  | nil => exact Nat.zero_le _
  | cons e es ih =>
    rcases List.forall_mem_cons.1 h with ⟨he, hes⟩
    have hlen := ih hes false
    rw [(writeMembers_cons he indent level first es).1]
    simp only [List.length_append, List.length_cons, List.length_nil] at hlen ⊢
    omega

/-- What is read behind a member: the closing brace, or a comma and the other members. -/
def behindMember? (fuel : Nat) (read : List (Text × Value)) (t : Text) :
    Option (List (Text × Value) × Text) :=
  match skipSpace t with
  | [] => none
  | c :: u =>
    if c = point '\x7d' then some (read, u)
    else if c = point ',' then members? fuel read (skipSpace u)
    else none

/-- One member is read and stored. -/
theorem members?_member {e : Text × Value} (h : IsFlatMember e) (hrest : EndsNumber rest)
    (fuel indent level : Nat) (read : List (Text × Value)) :
    members? (fuel + 2) read (quote e.1 ++ ([point ':', point ' '] ++
        ((write indent level e.2).text ++ rest))) =
      behindMember? (fuel + 1) (put e.1 (readAs e.2) read) rest := by
  have hreads := h.value.reads indent level
  have hspace : ∀ t, skipSpace (point ' ' :: t) = skipSpace t := fun t =>
    List.dropWhile_cons_of_pos (by decide)
  simp only [quote, List.cons_append, List.append_assoc, List.nil_append]
  rw [members?, if_pos rfl, text?_quote h.key]
  dsimp only
  rw [skipSpace_of_head (by decide)]
  dsimp only
  rw [if_pos rfl, hspace, hreads.start, hreads.read fuel rest hrest]
  rfl

/-- The members behind an opening brace are read up to the closing one. -/
theorem members?_written {es : List (Text × Value)} (h : ∀ e ∈ es, IsFlatMember e) (hne : es ≠ [])
    (hfuel : es.length < fuel) (indent level level' : Nat) (read : List (Text × Value)) :
    members? fuel read ((writeMembers indent level true es).text ++
      (newline indent level' ++ point '\x7d' :: rest)) =
        some (putAll read (es.map readMember), rest) := by
  induction es generalizing fuel read with
  | nil => exact absurd rfl hne
  | cons e es ih =>
    rcases List.forall_mem_cons.1 h with ⟨he, hes⟩
    -- one step for the member, and one for its value
    obtain ⟨fuel, rfl⟩ : ∃ n, fuel = n + 2 := ⟨fuel - 2, by simp at hfuel; omega⟩
    rw [(writeMembers_cons he indent level true es).1]
    simp only [separator, if_pos, List.nil_append, List.append_assoc]
    cases es with
    | nil =>
      have hends : EndsNumber (newline indent level' ++ point '\x7d' :: rest) := by
        rintro c ⟨⟩
        decide
      rw [writeMembers_nil, Written.all, List.nil_append, members?_member he hends,
        behindMember?, skipSpace_newline, skipSpace_of_head (by decide)]
      exact if_pos rfl
    | cons e' es =>
      have he' := hes e' List.mem_cons_self
      have hends : EndsNumber (separator indent level false ++
          ((writeMembers indent level true (e' :: es)).text ++
            (newline indent level' ++ point '\x7d' :: rest))) := by
        rintro c ⟨⟩
        decide
      rcases writeMembers_start he' indent level es with ⟨t, ht⟩
      rw [writeMembers_false he', List.append_assoc, members?_member he hends,
        behindMember?, separator, if_neg (by decide), List.cons_append, skipSpace_of_head (by decide)]
      dsimp only
      rw [if_neg (by decide), if_pos rfl, skipSpace_newline]
      have hread := ih hes (by simp) (Nat.lt_of_succ_lt_succ hfuel) (put e.1 (readAs e.2) read)
      rw [ht, List.cons_append] at hread ⊢
      rw [skipSpace_of_head (by decide), hread]
      rfl

theorem put_of_not_mem {key : Text} {v : Value} {l : List (Text × Value)}
    (h : key ∉ l.map Prod.fst) : put key v l = l ++ [(key, v)] := by
  induction l with
  | nil => rfl
  | cons p l ih =>
    simp only [List.map_cons, List.mem_cons, not_or] at h
    rw [put, if_neg (Ne.symm h.1), ih h.2, List.cons_append]

/-- Members with keys of their own are all kept, in order. -/
theorem putAll_of_nodup {read es : List (Text × Value)}
    (h : ((read ++ es).map Prod.fst).Nodup) : putAll read es = read ++ es := by
  induction es generalizing read with
  | nil =>
    rw [List.append_nil]
    rfl
  | cons e es ih =>
    have hnew : e.1 ∉ read.map Prod.fst := by
      rw [List.map_append, List.map_cons] at h
      intro hmem
      exact (List.nodup_append.1 h).2.2 _ hmem _ List.mem_cons_self rfl
    show putAll (put e.1 e.2 read) es = _
    rw [put_of_not_mem hnew, ih (by simpa using h)]
    simp

/-! ## An object -/

/-- An object of flat members with keys of their own is read back. -/
theorem read?_written {es : List (Text × Value)} (h : ∀ e ∈ es, IsFlatMember e)
    (hkeys : (es.map Prod.fst).Nodup) (indent : Nat) {deepest : Nat} (hdeepest : 0 < deepest) :
    let w := write indent 0 (.dict es)
    w.refused = none ∧ w.text.isAscii = true ∧ isTooDeep deepest w.text = false ∧
      read? w.text = some (.dict (es.map readMember)) := by
  cases es with
  | nil =>
    rw [write]
    refine ⟨rfl, rfl, ?_, rfl⟩
    show (decide (deepest ≤ 0) || _) = false
    simp only [Nat.not_le.2 hdeepest, decide_false]
    rfl
  | cons e es =>
    rcases writeMembers_flat h indent 1 true with ⟨hcomplete, hascii, hflat⟩
    have hwrite : write indent 0 (.dict (e :: es)) = .all (point '\x7b' ::
        (newline indent 1 ++ ((writeMembers indent 1 true (e :: es)).text ++
          (newline indent 0 ++ [point '\x7d'])))) := by
      rw [write]
      simp [Written.andThen, Written.all, hcomplete]
    have hinert : ∀ level, (newline indent level).all isInert = true :=
      newline_all (by decide) (by decide) indent
    rw [hwrite]
    refine ⟨rfl, ?_, ?_, ?_⟩
    · simp only [Written.all, Text.isAscii, List.all_cons, List.all_append] at hascii ⊢
      rw [hascii, newline_all (by decide) (by decide), newline_all (by decide) (by decide)]
      decide
    · show isDeeper deepest 0 false (_ :: _) = false
      rw [isDeeper.eq_def]
      dsimp only
      rw [if_pos (.inr rfl), isDeeper_inert (hinert 1), hflat, isDeeper_inert (hinert 0)]
      simp only [Nat.not_le.2 hdeepest, decide_false]
      rfl
    · have hlen := length_le_writeMembers h indent 1 true
      have hnodup : ((e :: es).map readMember).map Prod.fst = (e :: es).map Prod.fst := by
        rw [List.map_map]
        rfl
      have hread : ∀ fuel, (e :: es).length < fuel → members? fuel []
          ((writeMembers indent 1 true (e :: es)).text ++ (newline indent 0 ++ [point '\x7d'])) =
          some ((e :: es).map readMember, []) := by
        intro fuel hfuel
        rw [members?_written h (by simp) hfuel, putAll_of_nodup (by rwa [List.nil_append, hnodup])]
        rfl
      rcases writeMembers_start (h e List.mem_cons_self) indent 1 es with ⟨t, ht⟩
      rw [ht, List.cons_append] at hread
      rw [Written.all, read?, skipSpace_of_head (by decide), List.length_cons, Nat.mul_add,
        value?, if_neg (by decide), if_neg (by decide), if_pos rfl, skipSpace_newline, ht,
        List.cons_append, skipSpace_of_head (by decide)]
      dsimp only
      rw [if_neg (by decide), hread _ (by rw [ht] at hlen; simp at hlen ⊢; omega)]
      rfl

end ColorMarkup.Json
