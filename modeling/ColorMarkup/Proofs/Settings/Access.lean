import ColorMarkup.Proofs.Files.Alike
import ColorMarkup.Proofs.Files.Path
import ColorMarkup.Settings.Access
import ColorMarkup.Settings.Report
/-!
# Whether a path can be written

Whether a file can be written at a path depends on the home directories, on what is
where, and on what the user may do there, and not on what the files hold, so writing to the
journal does not change it. The check is refused only for a home directory that is asked for and
not known.

Results:
* `log_alike`, `report_alike`: records and reports leave every check as it is.
* `canWrite_alike`: the check is the same in environments that are alike.
* `canWrite_error_iff`: the paths whose check is refused.
-/
namespace ColorMarkup

namespace Environment

open Settings (Refusal Report)

/-- The same home directories, and files that are alike. -/
structure Alike (env env' : Environment) : Prop where
  files : env.files.Alike env'.files
  home : env.home = env'.home
  ownHome : env.ownHome = env'.ownHome
  accounts : env.accounts = env'.accounts

theorem Alike.refl (env : Environment) : env.Alike env := ⟨.refl _, rfl, rfl, rfl⟩

theorem Alike.trans {env env' env'' : Environment} (h : env.Alike env') (h' : env'.Alike env'') :
    env.Alike env'' :=
  ⟨h.files.trans h'.files, h.home.trans h'.home, h.ownHome.trans h'.ownHome,
    h.accounts.trans h'.accounts⟩

theorem log_alike (env : Environment) (r : Journal.Record) : env.Alike (env.log r) :=
  ⟨⟨rfl, FileTree.appendAll_alike _ _⟩, rfl, rfl, rfl⟩

theorem warn_alike (env : Environment) (message : Text) : env.Alike (env.warn message) := by
  unfold warn captureWarning
  split
  · exact log_alike _ _
  · exact ⟨.refl _, rfl, rfl, rfl⟩

theorem report_alike (env : Environment) (r : Report) : env.Alike (env.report r) :=
  (log_alike _ _).trans (warn_alike _ _)

/-! ## The check -/

theorem nearestIsWritable_alike {f f' : Files} (h : f.Alike f') (ps : List SplitPath) :
    nearestIsWritable f ps = nearestIsWritable f' ps := by
  induction ps with
  | nil => rfl
  | cons p ps ih =>
    obtain ⟨e, he, he'⟩ | ⟨a, n, n', hn, hn', hshape⟩ := Files.lookup_cases h p.text
    · simp only [nearestIsWritable, he, he', ih]
    · obtain rfl | ⟨c, c', rfl, rfl⟩ := Node.eq_or_files_of_shape hshape
      · simp only [nearestIsWritable, hn, hn', h.tree.access]
      · simp only [nearestIsWritable, hn, hn']
        rfl

theorem probe_alike {f f' : Files} (h : f.Alike f') (p : SplitPath) : probe f p = probe f' p := by
  obtain ⟨e, he, he'⟩ | ⟨a, n, n', hn, hn', hshape⟩ := Files.lookup_cases h p.text
  · simp only [probe, he, he', nearestIsWritable_alike h]
  · obtain rfl | ⟨c, c', rfl, rfl⟩ := Node.eq_or_files_of_shape hshape
    · simp only [probe, hn, hn', h.tree.access]
    · simp only [probe, hn, hn', h.tree.access, Node.isRegular]

theorem withHome_alike {env env' : Environment} (h : env.Alike env') (p : Text) :
    env.withHome p = env'.withHome p := by
  simp only [withHome, homeOf?, h.home, h.ownHome, h.accounts]

/-- A path that can be written in an environment can be written in one that is alike. -/
theorem canWrite_alike {env env' : Environment} (h : env.Alike env') (p : Text) :
    env.canWrite p = env'.canWrite p := by
  have hhome : ∀ q, env.withHomePath q = env'.withHomePath q := fun q => by
    simp only [withHomePath, withHome_alike h]
  have hprobe : probe env.files = probe env'.files := funext fun q => probe_alike h.files q
  simp only [canWrite, hhome, hprobe]

/-! ## Refused checks -/

/-- The home directory of a user is put in for the first component, if that asks for it. -/
theorem withHome_tilde (env : Environment) {user tail : Text} (h : Path.slash ∉ user)
    (htail : Path.GoesOn tail) :
    env.withHome (tilde :: user ++ tail) =
      match env.homeOf? user with
      | .error e => .error e
      | .ok none => .ok (tilde :: user ++ tail)
      | .ok (some home) =>
        .ok (if (Path.dropSlashes home ++ tail).isEmpty then [Path.slash]
          else Path.dropSlashes home ++ tail) := by
  have hfirst : (tilde :: user ++ tail).takeWhile (· != Path.slash) = tilde :: user :=
    Path.takeWhile_append_goesOn (by simpa [Path.slash, tilde] using h) htail
  simp only [withHome, hfirst, List.drop_left, List.drop_succ_cons, List.drop_zero]
  rfl

/-- The home directory of a user cannot be put in: the name is refused, or there is none, or
it starts with a tilde itself. -/
def NoHome (env : Environment) (user : Text) (e : Refusal) : Prop :=
  env.homeOf? user = .error e ∨ e = .noHome ∧
    ∃ home?, env.homeOf? user = .ok home? ∧ ∀ home ∈ home?, home.head? = some tilde

theorem withHomePath_tilde (env : Environment) {user : Text} (h : Path.slash ∉ user)
    (rest : List Text) :
    env.withHomePath ⟨[], (tilde :: user) :: rest⟩ =
      match env.homeOf? user with
      | .error e => .error e
      | .ok none => .error .noHome
      | .ok (some home) =>
        if home.head? = some tilde then .error .noHome
        else .ok (SplitPath.withFirst ⟨[], (tilde :: user) :: rest⟩ (Path.trimmed home)) := by
  have hhome := env.withHome_tilde h (.inl rfl)
  simp only [List.append_nil] at hhome
  simp only [withHomePath, hhome]
  cases env.homeOf? user with
  | error e => rfl
  | ok home? =>
    cases home? with
    | none => rfl
    | some home =>
      have hstarts := Path.head?_trimmed (c := tilde) (by decide) home
      rw [Path.trimmed] at hstarts
      simp only [Path.trimmed, beq_iff_eq, hstarts, List.isEmpty_nil, List.head?_cons,
        beq_self_eq_true, Bool.and_self, if_true]

theorem withHomePath_error_iff (env : Environment) {user : Text} (h : Path.slash ∉ user)
    (rest : List Text) (e : Refusal) :
    env.withHomePath ⟨[], (tilde :: user) :: rest⟩ = .error e ↔ env.NoHome user e := by
  rw [withHomePath_tilde env h, NoHome]
  cases env.homeOf? user with
  | error e' => simp
  | ok home? =>
    cases home? with
    | none => simp [eq_comm]
    | some home => by_cases htilde : home.head? = some tilde <;> simp [htilde, eq_comm]

/-- A path asks for a home directory with its first component, or is kept. -/
theorem withHomePath_cases (env : Environment) (q : SplitPath) :
    (∃ user rest, q = ⟨[], (tilde :: user) :: rest⟩) ∨ env.withHomePath q = .ok q := by
  obtain ⟨root, parts⟩ := q
  cases parts with
  | nil => exact .inr rfl
  | cons first rest =>
    by_cases hfirst : root = [] ∧ first.head? = some tilde
    · obtain ⟨rfl, hhead⟩ := hfirst
      obtain ⟨user, rfl⟩ := List.head?_eq_some_iff.1 hhead
      exact .inl ⟨user, rest, rfl⟩
    · exact .inr (if_neg (by simpa using hfirst))

/-- A check is refused exactly for a path that starts with a home directory that cannot be
put in. -/
theorem canWrite_error_iff (env : Environment) (p : Text) (e : Refusal) :
    env.canWrite p = .error e ↔
      ∃ user rest, SplitPath.ofText p = ⟨[], (tilde :: user) :: rest⟩ ∧ env.NoHome user e := by
  have hpath : env.canWrite p = .error e ↔ env.withHomePath (SplitPath.ofText p) = .error e := by
    unfold canWrite
    cases env.withHomePath (SplitPath.ofText p) <;> simp [Except.map]
  have htilde : ∀ user rest, SplitPath.ofText p = ⟨[], (tilde :: user) :: rest⟩ →
      (env.canWrite p = .error e ↔ env.NoHome user e) := by
    intro user rest hp
    have huser : Path.slash ∉ user := fun h =>
      ((SplitPath.proper_ofText p).parts (tilde :: user) (by simp [hp])).2.2 (List.mem_cons_of_mem _ h)
    rw [hpath, hp, withHomePath_error_iff env huser]
  constructor
  · intro h
    obtain ⟨user, rest, hp⟩ | hkept := env.withHomePath_cases (SplitPath.ofText p)
    · exact ⟨user, rest, hp, (htilde user rest hp).1 h⟩
    · rw [hpath, hkept] at h
      cases h
  · rintro ⟨user, rest, hp, h⟩
    exact (htilde user rest hp).2 h

end Environment
end ColorMarkup
