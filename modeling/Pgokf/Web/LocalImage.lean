import Pgokf.Lib.Url
import Pgokf.Text

/-! # Images of a rendered body (`is_local_image` of `markdown.rs`)

The sanitizer keeps the source of an image if it is taken for a path of the site. -/

namespace Pgokf.Web

open Lib Lib.Url

def isLocalImage (src : Text) : Bool :=
  let src := trim src
  !"//".toList.isPrefixOf src && !src.contains ':'

theorem mem_trim {t : Text} {c : Char} (hc : c ∈ t) (hblank : isWhitespace c = false) : c ∈ trim t := by
  have hdrop : ∀ l : Text, c ∈ l → c ∈ l.dropWhile isWhitespace := by
    intro l hl
    rw [← List.takeWhile_append_dropWhile (p := isWhitespace) (l := l), List.mem_append] at hl
    rcases hl with hl | hl
    · have hwhite := List.mem_takeWhile_imp hl
      rw [hblank] at hwhite
      cases hwhite
    · exact hl
  rw [trim, List.mem_reverse]
  exact hdrop _ (List.mem_reverse.mpr (hdrop t hc))

theorem no_colon_of_isLocalImage {src : Text} (h : isLocalImage src = true) : ':' ∉ src := by
  intro hcolon
  have hmem := mem_trim hcolon (by decide)
  rw [isLocalImage, Bool.and_eq_true] at h
  simp [hmem] at h

section Origin

variable {H : Type} (reader : HostReader H) (host : H) (port : Option Nat)

/-- The browser asks the server of the page, an `https` one, for the image. -/
def SameOrigin (src : Text) : Prop :=
  ∃ u, parse reader (some ⟨"https", host, port⟩) src = .url u ∧ u.scheme = "https" ∧ u.host = host ∧
    u.port = port

/-- The source names a host, and the one of the page. -/
def NamesPageHost (src : Text) : Prop :=
  afterUserInfo (authorityOf (normalize src)) ≠ [] ∧
    reader.read (afterUserInfo (authorityOf (normalize src))) = some host ∧ port = none

/-- An image stays on the site unless its source, without control characters and tabs, begins with
two slashes or backslashes and goes on with another host. -/
theorem local_image_same_origin_iff (src : Text) (h : isLocalImage src = true) :
    SameOrigin reader host port src ↔
      startsWithTwoSlashes (normalize src) = false ∨ NamesPageHost reader host port src := by
  have hcolon := no_colon_of_isLocalImage h
  have hauthority : ':' ∉ authorityOf (normalize src) := fun hmem =>
    hcolon (mem_of_mem_normalize (mem_authorityOf hmem).1)
  rw [SameOrigin, parse_of_no_colon reader _ hcolon, resolve]
  cases hslashes : startsWithTwoSlashes (normalize src) with
  | false => simp
  | true =>
    simp only [if_true, reduceCtorEq, false_or, readFromAuthority]
    constructor
    · rintro ⟨u, hu, -, hhost, hport⟩
      split at hu
      next named port' hread =>
        obtain ⟨hne, hnamed, rfl⟩ := (readAuthority_of_no_colon reader hauthority named port').mp hread
        rw [← Reading.url.inj hu] at hhost hport
        dsimp only at hhost hport
        rw [ite_self] at hport
        exact ⟨hne, hnamed.trans (congrArg some hhost), hport.symm⟩
      next => cases hu
    · rintro ⟨hne, hhost, rfl⟩
      rw [(readAuthority_of_no_colon reader hauthority host none).mpr ⟨hne, hhost, rfl⟩]
      exact ⟨_, rfl, rfl, rfl, rfl⟩

end Origin

def plainReader : HostReader Text := ⟨some, some⟩

theorem local_image_same_origin_path :
    isLocalImage "images/a.png" = true ∧
      SameOrigin plainReader "catalog.example" none "images/a.png" :=
  ⟨by decide +kernel,
    (local_image_same_origin_iff plainReader _ _ _ (by decide +kernel)).mpr (.inl (by decide +kernel))⟩

/-- A backslash hides the second slash from the test, but not from the browser. -/
theorem remote_image_admitted :
    isLocalImage "/\\evil.example/x.png" = true ∧
      parse plainReader (some ⟨"https", "catalog.example", none⟩) "/\\evil.example/x.png" =
        .url ⟨"https", "evil.example", none⟩ := by
  decide +kernel

end Pgokf.Web
