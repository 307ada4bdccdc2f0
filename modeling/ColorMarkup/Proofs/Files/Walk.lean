import ColorMarkup.Files.Walk
import ColorMarkup.Proofs.Files.Path
import ColorMarkup.Proofs.Text.Character
/-!
# Following a path

A path is followed by the bytes of its names, from the root or from the working directory. A walk
along some names and others behind them is a walk along the first, to a directory, and one from
there, with no more links left than there were. A walk never ends at a link.

Results:
* `Route.namesOf_encode`: the names of a path in bytes are those of its text.
* `Files.route_eq_ok_iff`: which paths can be followed, and how.
* `Files.walk_append_ok`, `Files.walk_append_of_walk`: walks one behind the other.
* `Files.lookup_eq_ok_iff`: what a path leads to.
-/
namespace ColorMarkup

/-! ## Names in bytes -/

namespace Utf8

/-- Every surrogate of the text stands for a byte. -/
def IsEncodable (t : Text) : Prop := ∀ c ∈ t, c.isSurrogate = true → c.isEscapedByte = true

/-- The bytes of a text that can be encoded. -/
def encoded (t : Text) : Bytes := (encode t).getD []

theorem IsEncodable.encode {t : Text} (h : IsEncodable t) : encode t = some (encoded t) := by
  obtain ⟨b, hb⟩ := Option.isSome_iff_exists.1 ((encode_isSome_iff t).2 h)
  rw [encoded, hb]
  rfl

theorem isEncodable_of_encode {t : Text} {b : Bytes} (h : Utf8.encode t = some b) :
    IsEncodable t ∧ encoded t = b := by
  refine ⟨(encode_isSome_iff t).1 (by rw [h]; rfl), ?_⟩
  rw [encoded, h]
  rfl

/-- What starts a text that can be encoded can be as well, and has no more bytes. -/
theorem IsEncodable.of_prefix {s t : Text} (h : IsEncodable t) (hst : s <+: t) :
    IsEncodable s ∧ (encoded s).length ≤ (encoded t).length := by
  obtain ⟨rest, rfl⟩ := hst
  obtain ⟨b, b', hb, -, hbb⟩ := encode_append_eq_some h.encode
  obtain ⟨hs, hbytes⟩ := isEncodable_of_encode hb
  refine ⟨hs, ?_⟩
  rw [hbb, hbytes, List.length_append]
  exact Nat.le_add_right _ _

/-- A text is the one of its bytes, if these are ASCII. -/
theorem encoded_eq_iff {t : Text} (h : IsEncodable t) {b : Bytes} (hb : b.isAscii = true) :
    encoded t = b ↔ t = b.toText := by
  constructor
  · rintro rfl
    obtain ⟨b, hb', ht, -⟩ := exists_encode_of_isAscii ((isAscii_iff_of_encode h.encode).2 hb)
    rw [← (isEncodable_of_encode hb').2] at ht
    exact ht.symm
  · rintro rfl
    exact (isEncodable_of_encode (encode_toText hb)).2

theorem encode_intercalate {cs : List Text} (h : ∀ c ∈ cs, IsEncodable c) :
    encode ([Path.slash].intercalate cs) = some ([Route.slash].intercalate (cs.map encoded)) := by
  induction cs with
  | nil => rfl
  | cons c cs ih =>
    obtain ⟨hc, hcs⟩ := List.forall_mem_cons.1 h
    cases cs with
    | nil => simpa using hc.encode
    | cons d cs =>
      have hslash : encode [Path.slash] = some [Route.slash] := rfl
      rw [List.intercalate_cons_cons, List.append_assoc, encode_append, encode_append, hc.encode,
        hslash, ih hcs]
      simp

end Utf8

open Utf8 (IsEncodable encoded)

namespace Route

theorem pieces_eq (b : Bytes) : pieces b = List.splitOn slash b := by
  induction b with
  | nil => rfl
  | cons c b ih =>
    rw [pieces, List.splitOn_cons_eq_if_modifyHead, ← ih]
    by_cases hc : c = slash
    · simp [hc]
    · rw [if_neg hc, if_neg (by simpa using hc)]
      cases h : pieces b with
      | nil => exact absurd (ih ▸ h) (List.splitOn_ne_nil slash b)
      | cons piece rest => rfl

/-- The names of a path in bytes are those of its text. -/
theorem namesOf_encode {p : Text} {b : Bytes} (h : Utf8.encode p = some b) :
    namesOf b = (Path.names p).map encoded := by
  have hp := (Utf8.isEncodable_of_encode h).1
  have hpieces : ∀ c ∈ Text.splitOn Path.slash p, IsEncodable c := fun c hc d hd =>
    hp d (Text.mem_of_mem_splitOn hc hd).1
  have hjoin : [Path.slash].intercalate (Text.splitOn Path.slash p) = p := by
    rw [Text.splitOn_eq]
    exact List.intercalate_splitOn Path.slash
  have hb : b = [slash].intercalate ((Text.splitOn Path.slash p).map encoded) := by
    have henc := Utf8.encode_intercalate hpieces
    rw [hjoin, h] at henc
    exact Option.some.inj henc
  have hslash : ∀ b ∈ (Text.splitOn Path.slash p).map encoded, slash ∉ b := by
    intro b hb hmem
    obtain ⟨c, hc, rfl⟩ := List.mem_map.1 hb
    obtain ⟨d, hd, hv⟩ := Utf8.mem_of_mem_encode (hpieces c hc).encode hmem (by decide)
    exact (Text.mem_of_mem_splitOn hc hd).2 (Fin.ext hv)
  have hne : (Text.splitOn Path.slash p).map encoded ≠ [] := by
    rw [Text.splitOn_eq]
    simp
  have hsplit : pieces b = (Text.splitOn Path.slash p).map encoded := by
    rw [pieces_eq, hb]
    exact List.splitOn_intercalate slash hslash hne
  rw [namesOf, hsplit, List.filter_map, Path.names]
  congr 1
  refine List.filter_congr fun c hc => ?_
  have hnil := Utf8.encoded_eq_iff (hpieces c hc) (show Bytes.isAscii [] = true from rfl)
  cases c with
  | nil => rfl
  | cons d c =>
    have : encoded (d :: c) ≠ [] := fun h => by cases hnil.1 h
    simpa using this

/-- The bytes of a character end in a slash only if it is one. -/
theorem getLast?_encode {d : CodePoint} {last : Bytes} (h : Utf8.encode [d] = some last) (x : Bytes) :
    isDirectoryPath (x ++ last) = (d == Path.slash) := by
  have hne : last ≠ [] := by
    rintro rfl
    obtain ⟨y, z, hy, -, hyz⟩ := Utf8.encode_cons_eq_some h
    exact Utf8.encodePoint_ne_nil hy (List.append_eq_nil_iff.1 hyz.symm).1
  rw [isDirectoryPath, List.getLast?_append, List.getLast?_eq_some_getLast hne]
  by_cases hd : d = Path.slash
  · subst hd
    cases h
    rfl
  · have hnot : last.getLast hne ≠ slash := by
      intro heq
      obtain ⟨c, hc, hv⟩ := Utf8.mem_of_mem_encode h (List.getLast_mem hne) (by rw [heq]; decide)
      obtain rfl := List.mem_singleton.1 hc
      exact hd (Fin.ext (by rw [hv, heq]; rfl))
    simp [hnot, hd]

/-- A path in bytes asks for a directory if its text ends in a slash. -/
theorem isDirectoryPath_encode {p : Text} {b : Bytes} (h : Utf8.encode p = some b) :
    isDirectoryPath b = (p.getLast? == some Path.slash) := by
  obtain rfl | ⟨p', d, rfl⟩ := p.eq_nil_or_concat
  · cases h
    rfl
  · rw [List.concat_eq_append] at h ⊢
    obtain ⟨b', last, -, hlast, rfl⟩ := Utf8.encode_append_eq_some h
    rw [getLast?_encode hlast b', List.getLast?_concat]
    rfl

end Route

namespace Path

/-- A path that can be followed: it has bytes, none of which is zero, and not too many. -/
structure IsRoutable (p : Text) : Prop where
  encodable : IsEncodable p
  zero : 0 ∉ p
  nonempty : p ≠ []
  short : (encoded p).length ≤ Route.maxPath

/-- A path that starts one that can be followed can be as well. -/
theorem IsRoutable.of_prefix {p q : Text} (h : IsRoutable p) (hq : q <+: p) (hne : q ≠ []) :
    IsRoutable q := by
  obtain ⟨hencodable, hlen⟩ := h.encodable.of_prefix hq
  exact ⟨hencodable, fun hz => h.zero (hq.subset hz), hne, hlen.trans h.short⟩

theorem isRoutable_here : IsRoutable here := by
  obtain ⟨hencodable, hbytes⟩ :=
    Utf8.isEncodable_of_encode (show Utf8.encode here = some Route.here from rfl)
  exact ⟨hencodable, by decide, by decide, by rw [hbytes]; decide⟩

end Path

namespace Files

variable {f : Files} {t : FileTree} {p : Text}

/-! ## Routes -/

/-- How a path is followed, if it can be. -/
def routeOf (f : Files) (p : Text) : Route :=
  ⟨if Path.isAbsolute p then [] else f.start, (Path.names p).map encoded,
    p.getLast? == some Path.slash⟩

theorem route_of_encode {b : Bytes} (h : Utf8.encode p = some b) :
    f.route p =
      if b.contains 0 then .error .embeddedNul
      else if b.isEmpty then .error .notFound
      else if Route.maxPath < b.length then .error .nameTooLong
      else .ok (f.routeOf p) := by
  unfold route routeOf
  rw [h, ← Route.namesOf_encode h, ← Route.isDirectoryPath_encode h]

theorem route_eq_ok_iff {r : Route} : f.route p = .ok r ↔ Path.IsRoutable p ∧ r = f.routeOf p := by
  cases h : Utf8.encode p with
  | none =>
    constructor
    · intro hr
      simp [route, h] at hr
    · rintro ⟨hp, -⟩
      rw [hp.encodable.encode] at h
      cases h
  | some b =>
    obtain ⟨hencodable, rfl⟩ := Utf8.isEncodable_of_encode h
    have hzero : (encoded p).contains 0 = true ↔ 0 ∈ p :=
      List.contains_iff_mem.trans (Utf8.zero_mem_encode h)
    have hempty : (encoded p).isEmpty = true ↔ p = [] := by
      rw [List.isEmpty_iff]
      exact Utf8.encoded_eq_iff hencodable (show Bytes.isAscii [] = true from rfl)
    rw [route_of_encode h]
    constructor
    · intro hr
      split at hr
      · cases hr
      · next hz =>
        split at hr
        · cases hr
        · next hne =>
          split at hr
          · cases hr
          · next hlen =>
            exact ⟨⟨hencodable, mt hzero.2 hz, mt hempty.2 hne, Nat.not_lt.1 hlen⟩,
              (Except.ok.inj hr).symm⟩
    · rintro ⟨hp, rfl⟩
      rw [if_neg (mt hzero.1 hp.zero), if_neg (mt hempty.1 hp.nonempty),
        if_neg (Nat.not_lt.2 hp.short)]

/-- A path that is not followed from the root has a name. -/
theorem isAbsolute_of_names_nil (hne : p ≠ []) (h : Path.names p = []) : Path.isAbsolute p = true := by
  cases p with
  | nil => exact absurd rfl hne
  | cons d p =>
    obtain rfl | ⟨c, hc, -⟩ := Path.mem_cases (List.mem_cons_self (a := d) (l := p))
    · rfl
    · rw [h] at hc
      cases hc

/-! ## Walking -/

/-- One name down, or none, or one up. -/
def next (a : Address) (name : Bytes) : Address :=
  if name = Route.here then a else if name = Route.up then a.dropLast else a ++ [name]

theorem enter_ok {a b : Address} {name : Bytes} (h : enter t a name = .ok b) :
    t.find? a = some .directory ∧ (t.access a).search = true ∧ b = next a name := by
  unfold enter at h
  split at h
  · cases h
  · next hdir =>
    refine ⟨hdir, ?_⟩
    split at h
    · cases h
    · next hsearch =>
      refine ⟨by simpa using hsearch, ?_⟩
      unfold next
      split at h
      · next hhere => rw [if_pos hhere, Except.ok.inj h]
      · next hhere =>
        rw [if_neg hhere]
        split at h
        · next hup => rw [if_pos hup, Except.ok.inj h]
        · next hup =>
          rw [if_neg hup]
          split at h
          · cases h
          · exact (Except.ok.inj h).symm
  · cases h

/-- In a directory that may be searched one can stay. -/
theorem scan_here {a : Address} (hdir : t.find? a = some .directory)
    (hsearch : (t.access a).search = true) : scan t a [Route.here] = .ok (.arrived a) := by
  have henter : enter t a Route.here = .ok a := by
    unfold enter
    rw [hdir]
    simp [hsearch]
  simp only [scan, henter, hdir]

/-- A leg along names and others behind them goes on where the first part arrives, or ends in that
part. -/
theorem scan_append (t : FileTree) (a : Address) (xs ys : List Bytes) :
    scan t a (xs ++ ys) = match scan t a xs with
      | .error e => .error e
      | .ok (.arrived d) => scan t d ys
      | .ok (.link dir target rest) => .ok (.link dir target (rest ++ ys)) := by
  induction xs generalizing a with
  | nil => rfl
  | cons x xs ih =>
    rw [List.cons_append, scan, scan]
    cases enter t a x with
    | error e => rfl
    | ok b =>
      dsimp only
      cases hb : t.find? b with
      | none =>
        -- behind a name under which there is nothing no other name leads anywhere
        cases xs with
        | cons x' xs => rfl
        | nil =>
          cases ys with
          | nil => rfl
          | cons y ys => simp [scan, enter, hb]
      | some n =>
        cases n with
        | link target => rfl
        | _ => exact ih b

theorem goOn_ok {next : Address → List Bytes → Except FileError Address} {leg : Except FileError Stop}
    {b : Address} (h : goOn next leg = .ok b) :
    leg = .ok (.arrived b) ∨ ∃ dir target rest, leg = .ok (.link dir target rest) ∧
      next (jump dir target) (Route.steps target ++ rest) = .ok b := by
  unfold goOn at h
  split at h
  · cases h
  · exact .inl (by rw [Except.ok.inj h])
  · exact .inr ⟨_, _, _, rfl, h⟩

/-- A walk is one leg, or one that ends at a link and a walk behind it, with one link less. -/
theorem walk_ok {links : Nat} {a b : Address} {names : List Bytes} (h : walk t links a names = .ok b) :
    scan t a names = .ok (.arrived b) ∨
      ∃ fewer dir target rest, links = fewer + 1 ∧ scan t a names = .ok (.link dir target rest) ∧
        walk t fewer (jump dir target) (Route.steps target ++ rest) = .ok b := by
  cases links with
  | zero =>
    rw [walk] at h
    obtain h | ⟨_, _, _, -, h⟩ := goOn_ok h
    · exact .inl h
    · cases h
  | succ fewer =>
    rw [walk] at h
    obtain h | ⟨dir, target, rest, hleg, h⟩ := goOn_ok h
    · exact .inl h
    · exact .inr ⟨fewer, dir, target, rest, rfl, hleg, h⟩

theorem walk_of_link {fewer : Nat} {a dir : Address} {names rest : List Bytes} {target : Bytes}
    (h : scan t a names = .ok (.link dir target rest)) :
    walk t (fewer + 1) a names = walk t fewer (jump dir target) (Route.steps target ++ rest) := by
  rw [walk, h, goOn]

theorem walk_of_error {a : Address} {names : List Bytes} {e : FileError}
    (h : scan t a names = .error e) (links : Nat) : walk t links a names = .error e := by
  cases links <;> rw [walk, h, goOn]

/-- What arrives along the first names goes on along those behind them. -/
theorem walk_append_of_scan {links : Nat} {a d : Address} {xs ys : List Bytes}
    (h : scan t a xs = .ok (.arrived d)) : walk t links a (xs ++ ys) = walk t links d ys := by
  cases links <;> rw [walk, walk, scan_append, h]

/-- A walk along names and others behind them is a walk along the first, and one from there. -/
theorem walk_append_ok {links : Nat} {a b : Address} {xs ys : List Bytes}
    (h : walk t links a (xs ++ ys) = .ok b) :
    ∃ d left, walk t links a xs = .ok d ∧ walk t left d ys = .ok b := by
  induction links using Nat.strongRecOn generalizing a xs with
  | ind links ih =>
    cases hleg : scan t a xs with
    | error e =>
      rw [walk_of_error (by rw [scan_append, hleg])] at h
      cases h
    | ok stop =>
      cases stop with
      | arrived d => exact ⟨d, links, walk_of_scan hleg links, walk_append_of_scan hleg ▸ h⟩
      | link dir target rest =>
        have hwhole := scan_append t a xs ys
        rw [hleg] at hwhole
        obtain h | ⟨fewer, _, _, _, rfl, hsame, h⟩ := walk_ok h
        · rw [hwhole] at h
          cases h
        · rw [hwhole] at hsame
          cases hsame
          rw [← List.append_assoc] at h
          rw [walk_of_link hleg]
          exact ih fewer (Nat.lt_succ_self fewer) h

/-- A walk that goes on enters a directory. -/
theorem walk_cons_ok {links : Nat} {a b : Address} {name : Bytes} {names : List Bytes}
    (h : walk t links a (name :: names) = .ok b) : ∃ c, enter t a name = .ok c := by
  cases henter : enter t a name with
  | ok c => exact ⟨c, rfl⟩
  | error e =>
    rw [walk_of_error (by rw [scan, henter])] at h
    cases h

/-- What is passed on a walk is a directory that may be searched. -/
theorem walk_through {links : Nat} {a b : Address} {xs ys : List Bytes}
    (h : walk t links a (xs ++ ys) = .ok b) (hys : ys ≠ []) :
    ∃ d, walk t links a xs = .ok d ∧ t.find? d = some .directory ∧ (t.access d).search = true := by
  obtain ⟨d, left, hd, h⟩ := walk_append_ok h
  obtain ⟨y, ys, rfl⟩ := List.exists_cons_of_ne_nil hys
  obtain ⟨c, henter⟩ := walk_cons_ok h
  obtain ⟨hdir, hsearch, -⟩ := enter_ok henter
  exact ⟨d, hd, hdir, hsearch⟩

/-- Where a leg arrives there is no link, unless it is where it starts. -/
theorem scan_arrived {a b : Address} {names : List Bytes} (h : scan t a names = .ok (.arrived b)) :
    (names = [] ∧ b = a) ∨ ∀ target, t.find? b ≠ some (.link target) := by
  induction names generalizing a with
  | nil =>
    cases h
    exact .inl ⟨rfl, rfl⟩
  | cons name names ih =>
    right
    rw [scan] at h
    split at h
    · cases h
    · next c _ =>
      split at h
      · next hnone =>
        split at h
        · cases h
          simp [hnone]
        · cases h
      · cases h
      · next n hn hc =>
        obtain ⟨-, rfl⟩ | hnot := ih h
        · intro target hlink
          rw [hc] at hlink
          exact hn target (Option.some.inj hlink)
        · exact hnot

theorem scan_link {a dir : Address} {names rest : List Bytes} {target : Bytes}
    (h : scan t a names = .ok (.link dir target rest)) : t.find? dir = some .directory := by
  induction names generalizing a with
  | nil => cases h
  | cons name names ih =>
    rw [scan] at h
    split at h
    · cases h
    · next c henter =>
      split at h
      · split at h <;> cases h
      · cases h
        exact (enter_ok henter).1
      · exact ih h

/-- A walk ends at no link, if it goes anywhere. -/
theorem walk_ne_link {links : Nat} {a b : Address} {names : List Bytes}
    (h : walk t links a names = .ok b)
    (ha : names = [] → ∀ target, t.find? a ≠ some (.link target)) (target : Bytes) :
    t.find? b ≠ some (.link target) := by
  induction links using Nat.strongRecOn generalizing a names with
  | ind links ih =>
    obtain hscan | ⟨fewer, dir, target', rest, rfl, hlink, h⟩ := walk_ok h
    · obtain ⟨hnil, rfl⟩ | hnot := scan_arrived hscan
      · exact ha hnil target
      · exact hnot target
    · refine ih fewer (Nat.lt_succ_self fewer) h fun _ => ?_
      have hdir : t.find? (jump dir target') = some .directory := by
        unfold jump
        split
        · rfl
        · exact scan_link hlink
      simp [hdir]

/-- No path leads to a link. -/
theorem resolve_ne_link {r : Route} {a : Address} (hr : f.route p = .ok r) (ha : f.resolve r = .ok a)
    (target : Bytes) : f.tree.find? a ≠ some (.link target) := by
  obtain ⟨hp, rfl⟩ := route_eq_ok_iff.1 hr
  refine walk_ne_link ha (fun hnil => ?_) target
  have hroot : (f.routeOf p).base = [] :=
    if_pos (isAbsolute_of_names_nil hp.nonempty (List.map_eq_nil_iff.1 hnil))
  simp [hroot, FileTree.find?]

/-! ## Looking up -/

theorem lookup_eq_ok_iff {a : Address} {n : Node} :
    f.lookup p = .ok (a, n) ↔ ∃ r, f.route p = .ok r ∧ f.resolve r = .ok a ∧
      f.tree.find? a = some n ∧ (r.endsInSlash = true → n = .directory) := by
  simp only [lookup, bind, Except.bind]
  cases hr : f.route p with
  | error e => simp
  | ok r =>
    dsimp only
    cases hres : f.resolve r with
    | error e => simp [hres]
    | ok b =>
      simp only [Except.ok.injEq, exists_eq_left', hres]
      cases hb : f.tree.find? b with
      | none =>
        refine iff_of_false (fun h => by cases h) ?_
        rintro ⟨rfl, hn, -⟩
        rw [hb] at hn
        cases hn
      | some m =>
        have hfound : (b = a ∧ f.tree.find? a = some n ∧ (r.endsInSlash = true → n = .directory)) ↔
            (b, m) = (a, n) ∧ (r.endsInSlash = true → m = .directory) := by
          constructor
          · rintro ⟨rfl, hn, hslash⟩
            obtain rfl : m = n := Option.some.inj (hb.symm.trans hn)
            exact ⟨rfl, hslash⟩
          · rintro ⟨heq, hslash⟩
            cases heq
            exact ⟨rfl, hb, hslash⟩
        rw [hfound]
        cases m with
        | directory => simp [pure, Except.pure]
        | _ => cases r.endsInSlash <;> simp [pure, Except.pure, throw, throwThe, MonadExceptOf.throw]

theorem lookup_ok {a : Address} {n : Node} (h : f.lookup p = .ok (a, n)) :
    ∃ r, f.route p = .ok r ∧ f.resolve r = .ok a ∧ f.tree.find? a = some n := by
  obtain ⟨r, hr, ha, hn, -⟩ := lookup_eq_ok_iff.1 h
  exact ⟨r, hr, ha, hn⟩

theorem lookup_directory {r : Route} {a : Address} (hr : f.route p = .ok r)
    (ha : f.resolve r = .ok a) (hn : f.tree.find? a = some .directory) :
    f.lookup p = .ok (a, .directory) :=
  lookup_eq_ok_iff.2 ⟨r, hr, ha, hn, fun _ => rfl⟩

theorem isDirectory_eq_true_iff :
    f.isDirectory p = true ↔ ∃ a, f.lookup p = .ok (a, .directory) := by
  constructor
  · intro h
    unfold isDirectory at h
    split at h
    · next a ha => exact ⟨a, ha⟩
    · cases h
  · rintro ⟨a, ha⟩
    rw [isDirectory, ha]

end Files
end ColorMarkup
