import ChartLift.Proofs.Files.Way
import ChartLift.Run.Templates
import Mathlib.Tactic.SplitIfs

/-!
# What a cache adds and gives

The entries of a cache stand side by side in its directory under names without dots
(`Cache.exists_entry`), and looking templates up changes no other files (`Cache.pristineAll_data?`) and
leaves what is there (`Cache.pristineAll_precedes`). What is given for a template is the template or what
its entry holds (`Cache.Gives`). From a cache that holds of each document only what it is, documents come
as they are (`Cache.Faithful.pristineAll`).
-/

namespace ChartLift

open Text (Bytes)
open FileTree (destination)

/-! ## Names of entries -/

/-- What has been written in digits is digits and what there was before. -/
lemma Digest.exists_digitChar {base fuel n : Nat} {c : Char} {before : List Char}
    (mem : c ∈ Nat.toDigitsCore base fuel n before) : c ∈ before ∨ ∃ digit, c = Nat.digitChar digit := by
  induction fuel generalizing n before with
  | zero => exact .inl mem
  | succ fuel ih =>
    rw [Nat.toDigitsCore] at mem
    split_ifs at mem
    · exact (List.mem_cons.mp mem).symm.imp id fun first => ⟨_, first⟩
    · rcases ih mem with here | digit
      · exact (List.mem_cons.mp here).symm.imp id fun first => ⟨_, first⟩
      · exact .inr digit

/-- A word has eight digits, or more. -/
lemma Digest.le_length_hexWord (x : UInt32) : 8 ≤ (Digest.hexWord x).length := by
  rw [Digest.hexWord, List.length_append, List.length_replicate]
  omega

/-- In the digest of some bytes there is neither a dot nor a slash, nor a letter behind `f`. -/
lemma Digest.ne_of_mem_hex {message : Bytes} {c : Char} (mem : c ∈ Digest.hex message) :
    c ≠ '.' ∧ c ≠ '/' ∧ c ≠ 'l' := by
  obtain ⟨word, -, here⟩ := List.mem_flatMap.mp mem
  rcases List.mem_append.mp here with zero | digit
  · obtain rfl := List.eq_of_mem_replicate zero
    decide
  · rcases Digest.exists_digitChar digit with none | ⟨_, rfl⟩
    · cases none
    · simp

/-- A result that is there is that of the computation. -/
lemma eq_ok_of_toOption {ε α : Type} {result : Except ε α} {a : α} (h : result.toOption = some a) :
    result = .ok a := by
  cases result with
  | error fault => cases h
  | ok b => exact congrArg Except.ok (Option.some.inj h)

namespace Cache

variable {cache : Cache} {name : String} {data bytes : Bytes} {path : FilePath} {files : FileTree}
  {template document : Manifest} {templates documents : List Manifest}

/-- In a transliterated name there is neither a dot nor a slash. -/
lemma ne_of_mem_transliterate {c : Char} (mem : c ∈ (transliterate name).toList) :
    c ≠ '.' ∧ c ≠ '/' := by
  rw [transliterate, String.toList_ofList] at mem
  obtain ⟨original, -, rfl⟩ := List.mem_map.mp mem
  split_ifs with special
  · decide
  · exact ⟨fun dot => special (.inr dot), fun slash => special (.inl slash)⟩

/-- The name of the entry for a document's name and bytes, by what the cache goes by. -/
inductive EntryName (name : String) (data : Bytes) : CachePolicy → String → Prop where
  | byName : EntryName name data .byName (transliterate name)
  | byContent : EntryName name data .byContent (transliterate name ++ "-" ++ contentHash data)

/-- In the name of an entry there is neither a dot nor a slash. -/
lemma EntryName.ne_of_mem {policy : CachePolicy} {entry : String} {c : Char}
    (named : EntryName name data policy entry) (mem : c ∈ entry.toList) : c ≠ '.' ∧ c ≠ '/' := by
  cases named with
  | byName => exact ne_of_mem_transliterate mem
  | byContent =>
    rw [String.toList_append, String.toList_append] at mem
    rcases List.mem_append.mp mem with mem | mem
    · rcases List.mem_append.mp mem with mem | mem
      · exact ne_of_mem_transliterate mem
      · obtain rfl := List.mem_singleton.mp mem
        decide
    · rw [contentHash, String.toList_ofList] at mem
      obtain ⟨dot, slash, -⟩ := Digest.ne_of_mem_hex (List.mem_of_mem_take mem)
      exact ⟨dot, slash⟩

lemma EntryName.dotless {policy : CachePolicy} {entry : String}
    (named : EntryName name data policy entry) : '.' ∉ entry.toList :=
  fun mem => (named.ne_of_mem mem).1 rfl

/-- An entry has a name, where what it is for has one. -/
lemma EntryName.nonempty {policy : CachePolicy} {entry : String}
    (named : EntryName name data policy entry) (nonempty : policy = .byName → name ≠ "") :
    entry ≠ "" := by
  intro empty
  have none := congrArg String.toList empty
  cases named with
  | byName => exact nonempty rfl (by simpa [transliterate] using none)
  | byContent => simp at none

lemma length_contentHash (data : Bytes) : (contentHash data).toList.length = 16 := by
  rw [contentHash, String.toList_ofList, List.length_take, Digest.hex]
  refine Nat.min_eq_left ?_
  simp only [List.length_flatMap, List.map_cons, List.map_nil, List.sum_cons, List.sum_nil]
  have word := Digest.le_length_hexWord
  exact Nat.le_trans (by decide : 16 ≤ 8 + 8)
    (Nat.add_le_add (word _) (Nat.le_add_right_of_le (word _)))

/-- A covered template has a name, the last letter of which is that of both endings. -/
lemma getLast?_of_covers (covered : covers template = true) :
    template.name.toList.getLast? = some 'l' := by
  obtain ⟨-, yaml⟩ := Bool.and_eq_true_iff.mp covered
  have ends : ∀ ending : List Char, ending.getLast? = some 'l' →
      ending.isSuffixOf template.name.toList = true → template.name.toList.getLast? = some 'l' := by
    intro ending last is
    obtain ⟨before, whole⟩ := List.isSuffixOf_iff_suffix.mp is
    rw [← whole, List.getLast?_append, last]
    rfl
  rcases Bool.or_eq_true_iff.mp yaml with yaml | yml
  · exact ends _ (by decide) yaml
  · exact ends _ (by decide) yml

lemma name_ne_of_covers (covered : covers template = true) : template.name ≠ "" := by
  intro empty
  have last := getLast?_of_covers covered
  rw [empty] at last
  cases last

/-- An entry by content is that of bytes with the same digits, and of no template by its name. -/
lemma EntryName.contentHash_eq {other : Manifest} {policy : CachePolicy} {entry : String}
    (named : EntryName name data .byContent entry) (covered : covers other = true)
    (named' : EntryName other.name other.raw policy entry) :
    contentHash other.raw = contentHash data := by
  cases named with
  | byContent =>
  have digits : ∀ data, (contentHash data).toList ≠ [] := by
    intro data none
    have length := length_contentHash data
    rw [none] at length
    cases length
  generalize e : transliterate name ++ "-" ++ contentHash data = entry at named'
  have chars : (transliterate name ++ "-").toList ++ (contentHash data).toList = entry.toList := by
    simp only [← e, String.toList_append]
  cases named' with
  | byContent =>
    have lengths : (contentHash data).toList.length = (contentHash other.raw).toList.length := by
      rw [length_contentHash, length_contentHash]
    have same := (List.append_inj' (chars.trans String.toList_append) lengths).2
    exact String.toList_injective same.symm
  | byName =>
    -- a transliterated name ends with `l`, which is not a digit
    have last : (transliterate other.name).toList.getLast? = some 'l' := by
      rw [transliterate, String.toList_ofList, List.getLast?_map, getLast?_of_covers covered]
      rfl
    rw [← chars, List.getLast?_append_of_ne_nil _ (digits data)] at last
    have digit := List.mem_of_getLast? last
    rw [contentHash, String.toList_ofList] at digit
    exact absurd rfl (Digest.ne_of_mem_hex (List.mem_of_mem_take digit)).2.2

/-- An entry is one file in the cache's directory. -/
lemma exists_entryName (h : cache.entry? name data = some path)
    (nonempty : cache.policy = .byName → name ≠ "") :
    ∃ entry, EntryName name data cache.policy entry ∧
      destination path = destination cache.directory ++ [entry] := by
  have leads : ∀ {entry}, EntryName name data cache.policy entry →
      destination (cache.directory.join ⟨entry⟩) = destination cache.directory ++ [entry] := by
    intro entry named
    refine FileTree.destination_join _ ⟨named.nonempty nonempty,
      fun mem => (named.ne_of_mem mem).2 rfl, ?_, ?_⟩
    · exact fun here => named.dotless (by simp [here])
    · exact fun up => named.dotless (by simp [up])
  rw [ entry?] at h
  cases policy : cache.policy with
  | off => rw [policy] at h; cases h
  | byName =>
    rw [policy] at h leads
    obtain rfl := Option.some.inj h
    exact ⟨_, .byName, leads .byName⟩
  | byContent =>
    rw [policy] at h leads
    obtain rfl := Option.some.inj h
    exact ⟨_, .byContent, leads .byContent⟩

/-- Where copies go by content, an entry is one file in the cache's directory, with no dot in its
name. -/
lemma exists_entry (policy : cache.policy = .byContent)
    (h : cache.entry? name data = some path) : ∃ entry, '.' ∉ entry.toList ∧
      destination path = destination cache.directory ++ [entry] := by
  obtain ⟨entry, named, leads⟩ := exists_entryName h fun byName => nomatch policy.symm.trans byName
  exact ⟨entry, named.dotless, leads⟩

/-! ## Looking up -/

/-- All that looking up bytes can come to. -/
inductive Fetches (cache : Cache) (name : String) (data : Bytes) (files : FileTree) : Fetched → Prop where
  | uncached {notes} (off : cache.entry? name data = none) :
      Fetches cache name data files ⟨files, notes, .ok data⟩
  | hit {entry notes} (addresses : cache.entry? name data = some entry) :
      Fetches cache name data files ⟨files, notes, readEntry entry files⟩
  | refused {notes fault} : Fetches cache name data files ⟨files, notes, .error fault⟩
  | stored {entry middle after notes} (addresses : cache.entry? name data = some entry)
      (worthy : isWorthy data = true) (made : files.makeDirectories cache.directory = .ok middle)
      (created : middle.create entry data = .ok after) :
      Fetches cache name data files ⟨after, notes, .ok data⟩
  /-- The entry is there once the directories on its way are. -/
  | late {entry middle notes} (addresses : cache.entry? name data = some entry)
      (made : files.makeDirectories cache.directory = .ok middle) :
      Fetches cache name data files ⟨middle, notes, readEntry entry middle⟩
  | unstored {middle notes fault} (made : files.makeDirectories cache.directory = .ok middle) :
      Fetches cache name data files ⟨middle, notes, .error fault⟩

lemma fetches (cache : Cache) (name : String) (data : Bytes) (files : FileTree) :
    Fetches cache name data files (cache.fetch name data files) := by
  delta fetch
  split
  · rename_i off
    exact .uncached off
  rename_i entry addresses
  split
  · exact .hit addresses
  split
  · exact .refused
  rename_i worthy
  split
  · exact .refused
  rename_i middle made
  delta store
  split
  · rename_i after created
    exact .stored addresses (by simpa using worthy) made created
  · exact .late addresses made
  · exact .unstored made

lemma fetch_off (off : cache.policy = .off) (name : String) (data : Bytes) (files : FileTree) :
    cache.fetch name data files = ⟨files, [], .ok data⟩ := by
  have none : cache.entry? name data = none := by rw [ entry?, off]
  delta fetch
  rw [none]

/-- Looking bytes up leaves what is there, and adds no directories but such as can be made. -/
lemma Fetches.precedes {fetched : Fetched} (fetches : Fetches cache name data files fetched) :
    files.Precedes fetched.files := by
  cases fetches with
  | uncached => exact .refl files
  | hit => exact .refl files
  | refused => exact .refl files
  | stored _ _ made created =>
    exact (FileTree.precedes_of_makeDirectories made).trans (FileTree.precedes_of_create created)
  | late _ made => exact FileTree.precedes_of_makeDirectories made
  | unstored made => exact FileTree.precedes_of_makeDirectories made

/-- What is read of an entry is what its path reads. -/
lemma readEntry_eq_ok_iff : readEntry path files = .ok bytes ↔ files.read path = .ok bytes := by
  rw [readEntry]
  cases files.read path <;> simp [Except.mapError]

/-- What looking up bytes comes to: no file changes but the entry, which is new then and has the bytes;
and what is given are the bytes or those of the entry. -/
lemma fetch_spec (cache : Cache) (name : String) (data : Bytes) (files : FileTree) :
    (files.Valid → (cache.fetch name data files).files.Valid) ∧
      (∀ place, (cache.fetch name data files).files.data? place = files.data? place ∨
        ∃ path, cache.entry? name data = some path ∧ destination path = place ∧
          files.data? place = none ∧ (cache.fetch name data files).files.data? place = some data) ∧
      ∀ bytes, (cache.fetch name data files).data = .ok bytes → bytes = data ∨
        ∃ path, cache.entry? name data = some path ∧
          files.data? (destination path) = some bytes := by
  have fetches := fetches cache name data files
  generalize cache.fetch name data files = fetched at fetches
  cases fetches with
  | uncached => exact ⟨id, fun _ => .inl rfl, fun _ h => .inl (Except.ok.inj h).symm⟩
  | hit addresses =>
    exact ⟨id, fun _ => .inl rfl,
      fun _ h => .inr ⟨_, addresses, FileTree.read_data? (readEntry_eq_ok_iff.mp h)⟩⟩
  | refused => exact ⟨id, fun _ => .inl rfl, fun _ h => nomatch h⟩
  | stored addresses _ made created =>
    have same := FileTree.makeDirectories_data? made
    refine ⟨fun valid => (valid.makeDirectories made).create created, fun place => ?_,
      fun _ h => .inl (Except.ok.inj h).symm⟩
    dsimp only
    rw [FileTree.create_data? created]
    split_ifs with here
    · have free : files.data? place = none := by
        rw [here, ← same, FileTree.data?, (FileTree.create_eq created).1]
      exact .inr ⟨_, addresses, here.symm, free, rfl⟩
    · exact .inl (same place)
  | late addresses made =>
    have same := FileTree.makeDirectories_data? made
    refine ⟨fun valid => valid.makeDirectories made, fun place => .inl (same place), fun _ h => ?_⟩
    exact .inr ⟨_, addresses, by rw [← same]; exact FileTree.read_data? (readEntry_eq_ok_iff.mp h)⟩
  | unstored made =>
    exact ⟨fun valid => valid.makeDirectories made,
      fun place => .inl (FileTree.makeDirectories_data? made place), fun _ h => nomatch h⟩

/-- That a cache holds for documents at most what they are: no entry that is there for one of them has
other bytes, and those of different bytes share none. -/
structure Faithful (cache : Cache) (files : FileTree) (documents : List Manifest) : Prop where
  held : ∀ document ∈ documents, covers document = true →
    ∀ path ∈ cache.entry? document.name document.raw,
    ∀ data ∈ files.data? (destination path), data = document.raw
  shared : ∀ document ∈ documents, covers document = true →
    ∀ path ∈ cache.entry? document.name document.raw,
    ∀ other ∈ documents, covers other = true → ∀ path' ∈ cache.entry? other.name other.raw,
    destination path = destination path' → document.raw = other.raw

/-- A document comes from a faithful cache as it is. -/
lemma Faithful.pristine (faithful : cache.Faithful files documents)
    (mem : covers document = true → document ∈ documents) :
    cache.Faithful (cache.pristine document files).1 documents ∧
      (cache.pristine document files).2.2 = document := by
  rw [Cache.pristine]
  split
  · rename_i covered
    have mem := mem covered
    obtain ⟨-, changes, gives⟩ := fetch_spec cache document.name document.raw files
    -- the document's own entry may be new, and then none of other bytes goes by it
    have still : cache.Faithful (cache.fetch document.name document.raw files).files documents := by
      refine ⟨fun other member covered' path' entry' data found => ?_, faithful.shared⟩
      rcases changes (destination path') with same | ⟨path, entry, leads, -, stored⟩
      · exact faithful.held other member covered' path' entry' data (same ▸ found)
      · obtain rfl := Option.some.inj (found.symm.trans stored)
        exact faithful.shared document mem covered path entry other member covered' path' entry' leads
    dsimp only
    split
    · rename_i bytes given
      refine ⟨still, ?_⟩
      rcases gives bytes given with rfl | ⟨path, entry, found⟩
      · rfl
      · rw [faithful.held document mem covered path entry bytes found]
    · exact ⟨still, rfl⟩
  · exact ⟨faithful, rfl⟩

lemma pristineAll_cons (cache : Cache) (template : Manifest) (rest : List Manifest)
    (files : FileTree) :
    (cache.pristineAll (template :: rest) files).files =
        (cache.pristineAll rest (cache.pristine template files).1).files ∧
      (cache.pristineAll (template :: rest) files).templates =
        (cache.pristine template files).2.2 ::
          (cache.pristineAll rest (cache.pristine template files).1).templates := by
  rw [Cache.pristineAll]
  exact ⟨rfl, rfl⟩

/-- Without a cache, templates are taken as they are. -/
lemma pristineAll_off (off : cache.policy = .off) (templates : List Manifest) (files : FileTree) :
    cache.pristineAll templates files = ⟨files, [], templates⟩ := by
  induction templates with
  | nil => rfl
  | cons template rest ih =>
    have same : cache.pristine template files = (files, [], template) := by
      rw [Cache.pristine, fetch_off off]
      split <;> rfl
    rw [Cache.pristineAll, same]
    dsimp only
    rw [ih]
    rfl

lemma Faithful.pristineAll (faithful : cache.Faithful files documents)
    (mem : ∀ template ∈ templates, covers template = true → template ∈ documents) :
    (cache.pristineAll templates files).templates = templates := by
  induction templates generalizing files with
  | nil => rfl
  | cons template rest ih =>
    obtain ⟨here, others⟩ := List.forall_mem_cons.mp mem
    obtain ⟨still, same⟩ := faithful.pristine here
    rw [(pristineAll_cons cache template rest files).2, ih still others, same]

/-- That a template stands in its entry, where nothing was before. -/
structure Adds (cache : Cache) (template : Manifest) (files after : FileTree) (place : Place) :
    Prop where
  covered : covers template = true
  entry : ∃ path, cache.entry? template.name template.raw = some path ∧ destination path = place
  fresh : files.data? place = none
  added : after.data? place = some template.raw

/-- Looking up a template keeps a tree valid and the template's name, and changes no file but the
template's entry. -/
lemma pristine_spec (cache : Cache) (template : Manifest) (files : FileTree) :
    (files.Valid → (cache.pristine template files).1.Valid) ∧
      (cache.pristine template files).2.2.name = template.name ∧
      ∀ place, (cache.pristine template files).1.data? place = files.data? place ∨
        cache.Adds template files (cache.pristine template files).1 place := by
  rw [Cache.pristine]
  split
  · rename_i covered
    obtain ⟨valid, changes, -⟩ := fetch_spec cache template.name template.raw files
    have changes : ∀ place, (cache.fetch template.name template.raw files).files.data? place =
        files.data? place ∨
          cache.Adds template files (cache.fetch template.name template.raw files).files place :=
      fun place => (changes place).imp id fun ⟨path, entry, leads, fresh, added⟩ =>
        ⟨covered, ⟨path, entry, leads⟩, fresh, added⟩
    dsimp only
    split <;> exact ⟨valid, rfl, changes⟩
  · exact ⟨id, rfl, fun _ => .inl rfl⟩

lemma pristine_precedes (cache : Cache) (template : Manifest) (files : FileTree) :
    files.Precedes (cache.pristine template files).1 := by
  rw [Cache.pristine]
  split
  · have precedes := (fetches cache template.name template.raw files).precedes
    dsimp only
    split <;> exact precedes
  · exact .refl files

lemma pristineAll_precedes (cache : Cache) (templates : List Manifest) (files : FileTree) :
    files.Precedes (cache.pristineAll templates files).files := by
  induction templates generalizing files with
  | nil => exact .refl files
  | cons template rest ih =>
    rw [(pristineAll_cons cache template rest files).1]
    exact (pristine_precedes cache template files).trans (ih _)

lemma pristineAll_valid (valid : files.Valid) : (cache.pristineAll templates files).files.Valid := by
  induction templates generalizing files with
  | nil => exact valid
  | cons template rest ih =>
    rw [(pristineAll_cons cache template rest files).1]
    exact ih ((pristine_spec cache template files).1 valid)

lemma pristineAll_names :
    (cache.pristineAll templates files).templates.map (·.name) = templates.map (·.name) := by
  induction templates generalizing files with
  | nil => rfl
  | cons template rest ih =>
    rw [(pristineAll_cons cache template rest files).2, List.map_cons, List.map_cons, ih,
      (pristine_spec cache template files).2.1]

/-- Looking up templates changes no files but their entries. -/
lemma pristineAll_data? (place : Place) :
    (cache.pristineAll templates files).files.data? place = files.data? place ∨
      ∃ template ∈ templates,
        cache.Adds template files (cache.pristineAll templates files).files place := by
  induction templates generalizing files with
  | nil => exact .inl rfl
  | cons template rest ih =>
    rw [(pristineAll_cons cache template rest files).1]
    rcases @ih (cache.pristine template files).1 with same | ⟨other, mem, adds⟩
    · rw [same]
      refine ((pristine_spec cache template files).2.2 place).imp id fun adds => ?_
      exact ⟨template, List.mem_cons_self, { adds with added := same.trans adds.added }⟩
    · -- what the others find nothing at held nothing from the start
      refine .inr ⟨other, List.mem_cons_of_mem _ mem, { adds with fresh := ?_ }⟩
      rcases (pristine_spec cache template files).2.2 place with same | first
      · exact same.symm.trans adds.fresh
      · exact first.fresh

/-- Looking up templates changes no file that is there. -/
lemma pristineAll_keeps {place : Place} (there : files.data? place = some bytes) :
    (cache.pristineAll templates files).files.data? place = some bytes := by
  rcases pristineAll_data? place with same | ⟨template, -, adds⟩
  · exact same.trans there
  · rw [adds.fresh] at there
    cases there

/-- That a document is what a cache gives for a template: the template, or the copy in its entry. -/
structure Gives (cache : Cache) (files : FileTree) (template given : Manifest) : Prop where
  name : given.name = template.name
  raw : given.raw = template.raw ∨ covers template = true ∧
    ∃ path, cache.entry? template.name template.raw = some path ∧
      files.data? (destination path) = some given.raw

/-- What is given for a template is the template, where its entry holds nothing else. -/
lemma Gives.raw_eq {given : Manifest} (gives : cache.Gives files template given)
    (own : covers template = true → ∀ path, cache.entry? template.name template.raw = some path →
      ∀ data, files.data? (destination path) = some data → data = template.raw) :
    given.raw = template.raw := by
  rcases gives.raw with same | ⟨covered, path, entry, held⟩
  · exact same
  · exact own covered path entry _ held

/-- What is given for a template does not change as other files are added. -/
lemma Gives.mono {given : Manifest} {after : FileTree} (gives : cache.Gives files template given)
    (keeps : ∀ place data, files.data? place = some data → after.data? place = some data) :
    cache.Gives after template given :=
  ⟨gives.name, gives.raw.imp id fun ⟨covered, path, entry, held⟩ =>
    ⟨covered, path, entry, keeps _ _ held⟩⟩

lemma gives_pristine (cache : Cache) (template : Manifest) (files : FileTree) :
    cache.Gives (cache.pristine template files).1 template (cache.pristine template files).2.2 := by
  refine ⟨(pristine_spec cache template files).2.1, ?_⟩
  have keeps : ∀ {place data}, files.data? place = some data →
      (cache.pristine template files).1.data? place = some data := by
    intro place data there
    rcases (pristine_spec cache template files).2.2 place with same | adds
    · exact same.trans there
    · rw [adds.fresh] at there
      cases there
  rw [Cache.pristine] at keeps ⊢
  split
  · rename_i covered
    rw [if_pos covered] at keeps
    dsimp only at keeps ⊢
    split
    · rename_i data given
      rcases (fetch_spec cache template.name template.raw files).2.2 data given with
        rfl | ⟨path, entry, held⟩
      · exact .inl rfl
      · refine .inr ⟨covered, path, entry, ?_⟩
        rw [given] at keeps
        exact keeps held
    · exact .inl rfl
  · exact .inl rfl

/-- Each document that is looked up is given for a template. -/
lemma exists_gives_of_mem_pristineAll {given : Manifest}
    (mem : given ∈ (cache.pristineAll templates files).templates) :
    ∃ template ∈ templates, cache.Gives (cache.pristineAll templates files).files template given := by
  induction templates generalizing files with
  | nil => cases mem
  | cons template rest ih =>
    rw [(pristineAll_cons cache template rest files).2] at mem
    rw [(pristineAll_cons cache template rest files).1]
    rcases List.mem_cons.mp mem with rfl | others
    · exact ⟨template, List.mem_cons_self,
        (gives_pristine cache template files).mono fun _ _ => pristineAll_keeps⟩
    · obtain ⟨other, member, gives⟩ := ih others
      exact ⟨other, List.mem_cons_of_mem _ member, gives⟩

/-- Looking up templates changes no files outside of the cache. -/
lemma pristineAll_outside {place : Place} (outside : ¬ destination cache.directory <+: place) :
    (cache.pristineAll templates files).files.data? place = files.data? place := by
  rcases pristineAll_data? place with same | ⟨template, -, adds⟩
  · exact same
  · obtain ⟨path, is, leads⟩ := adds.entry
    obtain ⟨entry, -, there⟩ := exists_entryName is fun _ => name_ne_of_covers adds.covered
    exact absurd ⟨[entry], there.symm.trans leads⟩ outside

end Cache

end ChartLift
