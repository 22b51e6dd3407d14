import ChartLift.Proofs.Cache.Entries
import Mathlib.Data.List.Find

/-!
# Requests to one directory of copies

Requests for bytes may go by name, by content or past the cache, and are answered one after the other
(`Cache.serve`). What is in the directory stays there as it is, and what a request adds is worth it
(`Cache.serve_writes_once`). Where all requests go by name, each is answered with what came with the
first one under its transliterated name (`Cache.answer_eq_first`), whatever the names themselves are
(`Cache.answer_of_clash`).
-/

namespace ChartLift.Cache

open Text (Bytes)
open FileTree (destination)

/-- A request for the bytes kept under a name. -/
structure Request where
  policy : CachePolicy
  name : String
  /-- The bytes to keep where there are none yet. -/
  data : Bytes

/-- What a directory of copies answers to a request. -/
def Request.answer (directory : FilePath) (request : Request) (files : FileTree) : Fetched :=
  fetch ⟨directory, request.policy⟩ request.name request.data files

/-- The path of the entry that a request is about. -/
def Request.entry? (directory : FilePath) (request : Request) : Option FilePath :=
  Cache.entry? ⟨directory, request.policy⟩ request.name request.data

/-- The files that requests leave, made one after the other. -/
def serve (directory : FilePath) (files : FileTree) (requests : List Request) : FileTree :=
  requests.foldl (fun files request => (request.answer directory files).files) files

variable {cache : Cache} {directory entry : FilePath} {name : String} {data bytes : Bytes}
  {files : FileTree} {fetched : Fetched} {request : Request} {earlier later requests : List Request}
  {place : Place} {fault : RunFault}

lemma serve_append (directory : FilePath) (files : FileTree) (earlier later : List Request) :
    serve directory files (earlier ++ later) = serve directory (serve directory files earlier) later :=
  List.foldl_append

/-! ## One request -/

/-- Looking bytes up changes nothing that is there. -/
lemma Fetches.grows (fetches : Fetches cache name data files fetched) : files.Grows fetched.files :=
  fetches.precedes.grows

/-- Where no bytes are given no file is added. -/
lemma Fetches.data?_of_error (fetches : Fetches cache name data files fetched)
    (failed : fetched.data = .error fault) (place : Place) :
    fetched.files.data? place = files.data? place := by
  cases fetches with
  | uncached => cases failed
  | hit => rfl
  | refused => rfl
  | stored => cases failed
  | late _ made => exact FileTree.makeDirectories_data? made place
  | unstored made => exact FileTree.makeDirectories_data? made place

/-- A file that is added is the entry, with bytes that are worth it. -/
lemma Fetches.added (fetches : Fetches cache name data files fetched)
    (absent : files.data? place = none) (there : fetched.files.data? place = some bytes) :
    bytes = data ∧ isWorthy data = true ∧
      ∃ entry, cache.entry? name data = some entry ∧ destination entry = place := by
  cases fetches with
  | uncached => cases absent.symm.trans there
  | hit => cases absent.symm.trans there
  | refused => cases absent.symm.trans there
  | stored addresses worthy made created =>
    rw [FileTree.create_data? created] at there
    split_ifs at there with here
    · exact ⟨(Option.some.inj there).symm, worthy, _, addresses, here.symm⟩
    · rw [FileTree.makeDirectories_data? made, absent] at there
      cases there
  | late _ made =>
    rw [FileTree.makeDirectories_data? made, absent] at there
    cases there
  | unstored made =>
    rw [FileTree.makeDirectories_data? made, absent] at there
    cases there

/-- The bytes that are given are those of the entry by then. -/
lemma Fetches.read (fetches : Fetches cache name data files fetched)
    (addresses : cache.entry? name data = some entry) (given : fetched.data = .ok bytes) :
    fetched.files.read entry = .ok bytes := by
  cases fetches with
  | uncached off =>
    rw [addresses] at off
    cases off
  | hit addresses' =>
    cases addresses.symm.trans addresses'
    exact readEntry_eq_ok_iff.mp given
  | refused => cases given
  | stored addresses' _ _ created =>
    cases addresses.symm.trans addresses'
    cases given
    exact FileTree.read_of_create created
  | late addresses' =>
    cases addresses.symm.trans addresses'
    exact readEntry_eq_ok_iff.mp given
  | unstored => cases given

/-- Bytes that are worth a copy mean one datum. -/
lemma isWorthy_iff : isWorthy data = true ↔
    ∃ text datum, Text.Utf8.decode data = .ok text ∧ Yaml.Content.onlyDatum? text = some datum := by
  rw [isWorthy]
  cases Text.Utf8.decode data with
  | error fault => simp
  | ok text => simp [Option.isSome_iff_exists]

lemma Request.fetches (directory : FilePath) (request : Request) (files : FileTree) :
    Fetches ⟨directory, request.policy⟩ request.name request.data files
      (request.answer directory files) :=
  Cache.fetches _ _ _ _

/-! ## Write-once -/

lemma serve_grows : files.Grows (serve directory files requests) := by
  induction requests generalizing files with
  | nil => exact .refl files
  | cons request rest ih => exact (request.fetches directory files).grows.trans ih

/-- Whatever has been asked before and will be asked, with whatever names, bytes and policies, a file
stays as it is once it is there. A request without an answer adds none, and one that adds its entry adds
bytes that mean one datum; what it is answered with is what its entry holds from then on. Past the cache
nothing happens. -/
theorem serve_writes_once (directory : FilePath) (files : FileTree) (earlier : List Request)
    (request : Request) (later : List Request) :
    let before := serve directory files earlier
    let answer := request.answer directory before
    let final := serve directory files (earlier ++ request :: later)
    (∀ place bytes, before.data? place = some bytes →
        answer.files.data? place = some bytes ∧ final.data? place = some bytes) ∧
      (∀ fault, answer.data = .error fault →
        ∀ place, answer.files.data? place = before.data? place) ∧
      (∀ place bytes, before.data? place = none → answer.files.data? place = some bytes →
        (∃ entry, request.entry? directory = some entry ∧ destination entry = place) ∧
        ∃ text datum, Text.Utf8.decode bytes = .ok text ∧
          Yaml.Content.onlyDatum? text = some datum) ∧
      (∀ bytes, answer.data = .ok bytes → ∀ entry, request.entry? directory = some entry →
        answer.files.read entry = .ok bytes ∧ final.read entry = .ok bytes) ∧
      (request.policy = .off → answer.files = before) := by
  intro before answer final
  have fetches : Fetches _ _ _ before answer := request.fetches directory before
  have grows : answer.files.Grows final := by
    show answer.files.Grows (serve directory files (earlier ++ request :: later))
    rw [serve_append]
    exact serve_grows
  refine ⟨fun place bytes there => ?_, fun fault failed => fetches.data?_of_error failed,
    fun place bytes absent there => ?_, fun bytes given entry addresses => ?_, fun off => ?_⟩
  · have kept := fetches.grows.data? there
    exact ⟨kept, grows.data? kept⟩
  · obtain ⟨rfl, worthy, addresses⟩ := fetches.added absent there
    exact ⟨addresses, isWorthy_iff.mp worthy⟩
  · have held := fetches.read addresses given
    exact ⟨held, grows.read held⟩
  · show (fetch _ _ _ before).files = before
    rw [fetch_off off]

/-! ## Requests by name -/

/-- The requests among some that are answered with bytes. -/
def answered (directory : FilePath) (files : FileTree) : List Request → List Request
  | [] => []
  | request :: rest =>
    let answer := request.answer directory files
    let others := answered directory answer.files rest
    if answer.data.toOption.isSome then request :: others else others

/-- That no file stands in a directory. -/
def Vacant (directory : FilePath) (files : FileTree) : Prop :=
  ∀ name, files.data? (destination directory ++ [name]) = none

/-- No file has an empty name. -/
lemma read_join_empty : files.read (directory.join ⟨""⟩) ≠ .ok bytes := by
  by_cases here : directory.text = ""
  · have path : directory.join ⟨""⟩ = ⟨""⟩ := by
      rw [FilePath.join]
      simp [FilePath.isAbsolute, here]
    rw [path]
    simp [FileTree.read, FileTree.resolve]
  · refine FileTree.read_ne_ok_of_slash ?_
    by_cases slash : directory.text.toList.getLast? = some '/'
    · simp [FilePath.join, FilePath.isAbsolute, slash]
    · simp [FilePath.join, FilePath.isAbsolute, slash, here]

/-- A request by name that is answered is about the one file under the transliterated name. -/
lemma Request.leads_of_answer (byName : request.policy = .byName)
    (given : (request.answer directory files).data = .ok bytes) :
    ∃ entry, request.entry? directory = some entry ∧
      destination entry = destination directory ++ [transliterate request.name] := by
  have addresses : request.entry? directory =
      some (directory.join ⟨transliterate request.name⟩) := by
    rw [Request.entry?, Cache.entry?, byName]
  have held := (request.fetches directory files).read addresses given
  have nonempty : request.name ≠ "" := by
    intro empty
    rw [empty] at held
    exact read_join_empty held
  obtain ⟨entry, named, leads⟩ := exists_entryName addresses fun _ => nonempty
  rw [byName] at named
  cases named with
  | byName => exact ⟨_, addresses, leads⟩

/-- A request by name that is answered puts its bytes under its transliterated name, unless some are
there. -/
lemma Request.data?_answer (byName : request.policy = .byName) (files : FileTree) (name : String) :
    (request.answer directory files).files.data? (destination directory ++ [name]) =
      (files.data? (destination directory ++ [name])).or
        (if (request.answer directory files).data.toOption.isSome ∧ transliterate request.name = name
          then some request.data else none) := by
  have fetches := request.fetches directory files
  cases there : files.data? (destination directory ++ [name]) with
  | some bytes => exact fetches.grows.data? there
  | none =>
    rw [Option.none_or]
    cases given : (request.answer directory files).data with
    | error fault =>
      rw [fetches.data?_of_error given, there]
      simp [Except.toOption]
    | ok bytes =>
      obtain ⟨entry, addresses, leads⟩ := leads_of_answer byName given
      by_cases same : transliterate request.name = name
      · have held := FileTree.read_data? (fetches.read addresses given)
        rw [leads, same] at held
        rw [held, (fetches.added there held).1]
        simp [Except.toOption, same]
      · -- what has been added would be the entry, which has another name
        cases after : (request.answer directory files).files.data? (destination directory ++ [name]) with
        | none => simp [same]
        | some bytes =>
          obtain ⟨-, -, entry', addresses', leads'⟩ := fetches.added there after
          cases addresses.symm.trans addresses'
          have names := List.append_cancel_left (leads.symm.trans leads')
          exact absurd (List.singleton_inj.mp names) same

/-- What stands under a name after requests by name stood there before, or came with the first answered
one whose name transliterates to it. -/
lemma data?_serve (byName : ∀ request ∈ requests, request.policy = .byName) (files : FileTree)
    (name : String) :
    (serve directory files requests).data? (destination directory ++ [name]) =
      (files.data? (destination directory ++ [name])).or
        (((answered directory files requests).find? fun request =>
          transliterate request.name = name).map (·.data)) := by
  induction requests generalizing files with
  | nil => simp [serve, answered]
  | cons request rest ih =>
    obtain ⟨here, others⟩ := List.forall_mem_cons.mp byName
    have split : serve directory files (request :: rest) =
        serve directory (request.answer directory files).files rest := rfl
    rw [split, ih others, Request.data?_answer here, answered, Option.or_assoc]
    congr 1
    split_ifs with both given given
    · rw [List.find?_cons_of_pos (by simpa using both.2)]
      rfl
    · exact absurd both.1 given
    · rw [List.find?_cons_of_neg (by simpa using fun same => both ⟨given, same⟩), Option.none_or]
    · rw [Option.none_or]

/-- Requests by name to a directory that is empty at first are answered with the bytes that came with
the first one answered under the same transliterated name. Where no other name is transliterated alike,
that is the first one under the name itself. -/
theorem answer_eq_first (vacant : Vacant directory files)
    (byName : ∀ other ∈ earlier ++ [request], other.policy = .byName)
    (given : (request.answer directory (serve directory files earlier)).data = .ok bytes) :
    let until_ := answered directory files (earlier ++ [request])
    ∃ first, until_.find? (fun other => transliterate other.name = transliterate request.name) =
        some first ∧ first.data = bytes ∧
      ((∀ other ∈ until_, transliterate other.name = transliterate request.name →
          other.name = request.name) →
        until_.find? (fun other => other.name = request.name) = some first) := by
  intro until_
  have here := byName request (List.mem_append_right _ (List.mem_singleton_self _))
  obtain ⟨entry, addresses, leads⟩ := Request.leads_of_answer here given
  have held := FileTree.read_data? ((request.fetches _ _).read addresses given)
  have whole : serve directory files (earlier ++ [request]) =
      (request.answer directory (serve directory files earlier)).files := serve_append _ _ _ _
  rw [leads, ← whole, data?_serve byName, vacant, Option.none_or] at held
  obtain ⟨first, found, rfl⟩ := Option.map_eq_some_iff.mp held
  refine ⟨first, found, rfl, fun apart => ?_⟩
  rw [← found]
  refine List.find?_congr fun other mem => ?_
  exact decide_eq_decide.mpr ⟨fun same => by rw [same], apart other mem⟩

/-- A request for a template. -/
def plainRequest : Request := ⟨.byName, "templates/a.b.yaml", Text.bytes "a: 1\n"⟩

/-- A request for a template in a directory, the name of which is transliterated alike. -/
def nestedRequest : Request := ⟨.byName, "templates/a/b.yaml", Text.bytes "b: 2\n"⟩

lemma vacant_empty : Vacant ⟨".helm-dump"⟩ .empty := by
  have leads : destination ⟨".helm-dump"⟩ = [".helm-dump"] := by decide
  intro name
  simp [leads, FileTree.data?, FileTree.at?, FileTree.empty, Place.isOutward]

/-- The request for the template is answered first, and then the other one with the same bytes. -/
lemma answers_of_clash :
    (plainRequest.answer ⟨".helm-dump"⟩ .empty).data = .ok (Text.bytes "a: 1\n") ∧
      (nestedRequest.answer ⟨".helm-dump"⟩ (serve ⟨".helm-dump"⟩ .empty [plainRequest])).data =
        .ok (Text.bytes "a: 1\n") :=
  ⟨eq_ok_of_toOption (by decide +kernel), eq_ok_of_toOption (by decide +kernel)⟩

/-- The second of two requests whose names are transliterated alike is answered with what came with the
first one. -/
theorem answer_eq_first_nested : Vacant ⟨".helm-dump"⟩ .empty ∧
    (∀ other ∈ [plainRequest] ++ [nestedRequest], other.policy = .byName) ∧
    (nestedRequest.answer ⟨".helm-dump"⟩ (serve ⟨".helm-dump"⟩ .empty [plainRequest])).data =
      .ok (Text.bytes "a: 1\n") ∧
    ∃ first, (answered ⟨".helm-dump"⟩ .empty [plainRequest, nestedRequest]).find?
        (fun other => transliterate other.name = transliterate nestedRequest.name) = some first ∧
      first.data = Text.bytes "a: 1\n" := by
  have byName : ∀ other ∈ [plainRequest] ++ [nestedRequest], other.policy = .byName := by
    simp [plainRequest, nestedRequest]
  obtain ⟨first, found, data, -⟩ := answer_eq_first vacant_empty byName answers_of_clash.2
  exact ⟨vacant_empty, byName, answers_of_clash.2, first, found, data⟩

/-- Copies that go by name can be mixed up: the first answered request for a template is answered with
the bytes of another template. -/
theorem answer_of_clash :
    let directory : FilePath := ⟨".helm-dump"⟩
    let answer := nestedRequest.answer directory (serve directory .empty [plainRequest])
    Vacant directory .empty ∧ plainRequest.policy = .byName ∧ nestedRequest.policy = .byName ∧
      plainRequest.name ≠ nestedRequest.name ∧
      (plainRequest.answer directory .empty).data = .ok plainRequest.data ∧
      answer.data = .ok plainRequest.data ∧ plainRequest.data ≠ nestedRequest.data ∧
      (answered directory .empty [plainRequest, nestedRequest]).find?
        (fun other => other.name = nestedRequest.name) = some nestedRequest := by
  refine ⟨vacant_empty, rfl, rfl, by decide, answers_of_clash.1, answers_of_clash.2, by decide, ?_⟩
  have split : serve ⟨".helm-dump"⟩ .empty [plainRequest] =
      (plainRequest.answer ⟨".helm-dump"⟩ .empty).files := rfl
  have second := answers_of_clash.2
  rw [split] at second
  simp only [answered, answers_of_clash.1, second]
  rfl

end ChartLift.Cache
