import AuraHttpd.Mime

/-!
# The table of suffixes and the key it is looked up by

The table lists suffixes of one dot and two of two dots, while the key is what the last dot of the
path begins.  An entry is found for a path that ends in its suffix exactly where the suffix is its
own key (`guess_of_own_key`), so the type is that of the longest listed suffix exactly for the paths
that end in neither of the two others (`mimeType_iff`).
-/

namespace AuraHttpd

open CString

/-- The type the table gives a path: that of the longest suffix the path ends in, the default where
it ends in none. -/
def ListedType (path mime : Bytes) : Prop :=
  (∃ e ∈ mimedb, e.1 <:+ path ∧ (∀ f ∈ mimedb, f.1 <:+ path → f.1.length ≤ e.1.length) ∧
      mime = e.2)
    ∨ (∀ e ∈ mimedb, ¬ e.1 <:+ path) ∧ mime = lit "application/octet-stream"

section Extension

theorem fileGetExtension_eq_some_iff {path ext : Bytes} :
    fileGetExtension path = some ext ↔ ext <:+ path ∧ ∃ k, 46 ∉ k ∧ ext = 46 :: k :=
  strrchr_eq_some_iff

/-- A suffix with a dot decides the extension. -/
theorem fileGetExtension_of_suffix {s path ext : Bytes} (hs : s <:+ path)
    (h : fileGetExtension s = some ext) : fileGetExtension path = some ext := by
  rw [fileGetExtension_eq_some_iff] at h ⊢
  exact ⟨h.1.trans hs, h.2⟩

end Extension

section Table

theorem mimedb_keys_nodup : (mimedb.map Prod.fst).Nodup := by decide +kernel

theorem foldl_hsearchEnter : ∀ (items hs : List (Bytes × Bytes)),
    ((hs ++ items).map Prod.fst).Nodup → items.foldl hsearchEnter hs = hs ++ items
  | [], hs, _ => by simp
  | item :: items, hs, hn => by
    have hnew : ¬ hs.any (·.1 = item.1) := by
      intro hany
      obtain ⟨e, he, heq⟩ := List.any_eq_true.1 hany
      simp only [List.map_append, List.map_cons, List.nodup_append] at hn
      exact hn.2.2 e.1 (List.mem_map_of_mem he) item.1 (by simp) (by simpa using heq)
    have henter : hsearchEnter hs item = hs ++ [item] := by simp [hsearchEnter, hnew]
    rw [List.foldl_cons, henter, foldl_hsearchEnter items _ (by simpa using hn)]
    simp

theorem ahttpdMimeInit_eq : ahttpdMimeInit = mimedb := by
  rw [ahttpdMimeInit, foldl_hsearchEnter _ _ (by simpa using mimedb_keys_nodup), List.nil_append]

theorem hsearchFind_of_mem {e : Bytes × Bytes} :
    ∀ {hs : List (Bytes × Bytes)}, (hs.map Prod.fst).Nodup → e ∈ hs → hsearchFind hs e.1 = some e.2
  | [], _, he => by simp at he
  | f :: hs, hn, he => by
    simp only [List.map_cons, List.nodup_cons] at hn
    rcases List.mem_cons.1 he with rfl | he
    · simp [hsearchFind]
    · have hne : f.1 ≠ e.1 := fun heq => hn.1 (heq ▸ List.mem_map_of_mem he)
      have := hsearchFind_of_mem hn.2 he
      simpa [hsearchFind, hne] using this

theorem mem_of_hsearchFind {hs : List (Bytes × Bytes)} {key mime : Bytes}
    (h : hsearchFind hs key = some mime) : (key, mime) ∈ hs := by
  obtain ⟨e, he, rfl⟩ := Option.map_eq_some_iff.1 h
  have hkey : e.1 = key := by simpa using List.find?_some he
  exact hkey ▸ List.mem_of_find?_eq_some he

theorem tgz_mem : (lit ".tar.gz", lit "application/x-tgz") ∈ mimedb :=
  List.mem_of_getElem? (i := 10) rfl

theorem bz2_mem : (lit ".tar.bz2", lit "application/x-bzip-compressed-tar") ∈ mimedb :=
  List.mem_of_getElem? (i := 51) rfl

/-- The two entries whose suffix is not what its own last dot begins. -/
theorem own_key_iff : ∀ e ∈ mimedb,
    fileGetExtension e.1 = some e.1 ↔ e.1 ≠ lit ".tar.gz" ∧ e.1 ≠ lit ".tar.bz2" := by
  decide +kernel

/-- No entry as long as one of the two has the type that is found for it. -/
theorem shadowed_type : ∀ e ∈ mimedb, fileGetExtension e.1 ≠ some e.1 →
    ∀ f ∈ mimedb, e.1.length ≤ f.1.length →
      (fileGetExtension e.1).bind (hsearchFind mimedb) ≠ some f.2 := by
  decide +kernel

theorem shadowed_found : ∀ e ∈ mimedb,
    ((fileGetExtension e.1).bind (hsearchFind mimedb)).isSome := by
  decide +kernel

end Table

section Guess

variable {path : Bytes}

theorem guess_of_found {ext mime : Bytes} (hext : fileGetExtension path = some ext)
    (hfound : hsearchFind mimedb ext = some mime) :
    ahttpdMimeGuess ahttpdMimeInit path = mime := by
  simp [ahttpdMimeGuess, ahttpdMimeInit_eq, hext, hfound]

theorem guess_of_own_key {e : Bytes × Bytes} (he : e ∈ mimedb)
    (hown : fileGetExtension e.1 = some e.1) (hs : e.1 <:+ path) :
    ahttpdMimeGuess ahttpdMimeInit path = e.2 :=
  guess_of_found (fileGetExtension_of_suffix hs hown) (hsearchFind_of_mem mimedb_keys_nodup he)

theorem guess_of_unlisted (h : ∀ e ∈ mimedb, ¬ e.1 <:+ path) :
    ahttpdMimeGuess ahttpdMimeInit path = lit "application/octet-stream" := by
  unfold ahttpdMimeGuess
  rcases hext : fileGetExtension path with _ | ext
  · rfl
  rcases hfound : hsearchFind ahttpdMimeInit ext with _ | mime
  · simp [hfound]
  · rw [ahttpdMimeInit_eq] at hfound
    exact absurd (fileGetExtension_eq_some_iff.1 hext).1 (h _ (mem_of_hsearchFind hfound))

/-- Where every listed suffix of the path is its own key there is only one. -/
theorem listedType_of_own_keys
    (h : ∀ e ∈ mimedb, e.1 <:+ path → fileGetExtension e.1 = some e.1) :
    ListedType path (ahttpdMimeGuess ahttpdMimeInit path) := by
  by_cases hlisted : ∃ e ∈ mimedb, e.1 <:+ path
  · obtain ⟨e, he, hs⟩ := hlisted
    refine .inl ⟨e, he, hs, fun f hf hfs => ?_, guess_of_own_key he (h e he hs) hs⟩
    have hsame : some f.1 = some e.1 := by
      rw [← fileGetExtension_of_suffix hs (h e he hs),
        ← fileGetExtension_of_suffix hfs (h f hf hfs)]
    rw [Option.some.inj hsame]
  · have hnone : ∀ e ∈ mimedb, ¬ e.1 <:+ path := fun e he hs => hlisted ⟨e, he, hs⟩
    exact .inr ⟨hnone, guess_of_unlisted hnone⟩

/-- A suffix that is not its own key is passed over for a shorter one. -/
theorem own_key_of_listedType (h : ListedType path (ahttpdMimeGuess ahttpdMimeInit path)) :
    ∀ e ∈ mimedb, e.1 <:+ path → fileGetExtension e.1 = some e.1 := by
  intro e he hs
  by_contra hown
  obtain ⟨mime, hmime⟩ := Option.isSome_iff_exists.1 (shadowed_found e he)
  obtain ⟨ext, hext, hfound⟩ := Option.bind_eq_some_iff.1 hmime
  have hguess := guess_of_found (fileGetExtension_of_suffix hs hext) hfound
  rcases h with ⟨f, hf, -, hlongest, heq⟩ | ⟨hnone, -⟩
  · apply shadowed_type e he hown f hf (hlongest e he hs)
    rw [hmime, ← hguess, heq]
  · exact hnone e he hs

end Guess

/-- The type of a path is that of the longest listed suffix, unless that is one of the two with two
dots. -/
theorem mimeType_iff (path : Bytes) :
    ListedType path (ahttpdMimeGuess ahttpdMimeInit path) ↔
      ¬ lit ".tar.gz" <:+ path ∧ ¬ lit ".tar.bz2" <:+ path := by
  constructor
  · intro h
    have hown := own_key_of_listedType h
    refine ⟨fun hs => ?_, fun hs => ?_⟩
    · exact ((own_key_iff _ tgz_mem).1 (hown _ tgz_mem hs)).1 rfl
    · exact ((own_key_iff _ bz2_mem).1 (hown _ bz2_mem hs)).2 rfl
  · rintro ⟨htgz, hbz2⟩
    refine listedType_of_own_keys fun e he hs => (own_key_iff e he).2 ⟨?_, ?_⟩
    · exact fun heq => htgz (heq ▸ hs)
    · exact fun heq => hbz2 (heq ▸ hs)

/-- An archive is given the type of what is packed within it. -/
theorem archive_type_lost :
    ¬ ListedType (lit "/x.tar.gz") (ahttpdMimeGuess ahttpdMimeInit (lit "/x.tar.gz")) := by
  unfold ListedType
  decide +kernel

example : ahttpdMimeGuess ahttpdMimeInit (lit "/a.tar.d/b.x/x.html") = lit "text/html" := by
  decide +kernel

end AuraHttpd
