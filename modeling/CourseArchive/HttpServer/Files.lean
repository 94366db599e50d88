import CourseArchive.Lib.Buffer
import CourseArchive.Lib.LexicalPath

/-! The requests that `hw2/httpserver.c` answers out of its files directory. Characters stand as their codes: 10
ends a line, 32 is the blank, 46 the dot, 47 the slash, 65 to 90 are the capital letters. -/

namespace CourseArchive.HttpServer

open Lib

structure HttpRequest where
  method : List UInt8
  path : List UInt8
  deriving DecidableEq

def isUpper (c : UInt8) : Bool := 65 ≤ c && c ≤ 90

def isPathChar (c : UInt8) : Bool := c ≠ 0 && c ≠ 32 && c ≠ 10

def isLineChar (c : UInt8) : Bool := c ≠ 0 && c ≠ 10

/-- What `read` has put into the buffer is ended by a NUL. -/
def httpRequestParse (received : List UInt8) : Option HttpRequest :=
  let buffer := received ++ [0]
  let method := buffer.takeWhile isUpper
  if method = [] then none
  else
    match buffer.drop method.length with
    | 32 :: rest =>
      let path := rest.takeWhile isPathChar
      if path = [] then none
      else
        match (rest.drop path.length).dropWhile isLineChar with
        | 10 :: _ => some ⟨method, path⟩
        | _ => none
    | _ => none

def MAX_ADDR : ℕ := 1024

/-- Into a buffer of `MAX_ADDR` bytes; `none` if the NUL or what is before it passes the end of the buffer. -/
def strcat (dst src : List UInt8) : Option (List UInt8) :=
  if dst.length + src.length < MAX_ADDR then some (dst ++ src) else none

def strcpy (src : List UInt8) : Option (List UInt8) := strcat [] src

inductive FileKind
  | regular | directory | other
  deriving DecidableEq

structure FileSystem where
  stat : List UInt8 → Option FileKind
  opens : List UInt8 → Bool
  opendir : List UInt8 → Bool

inductive Body
  | empty
  | file (path : List UInt8)
  | listing (path : List UInt8)
  deriving DecidableEq

structure Answer where
  status : ℕ
  contentType : Option String
  body : Body
  opened : List (List UInt8)
  deriving DecidableEq

def notFound : Answer := ⟨404, none, .empty, []⟩

def httpGetMimeType (fileName : List UInt8) : String :=
  let fileExtension := fileName.rtakeWhile (· ≠ 46)
  if 46 ∉ fileName then "text/plain"
  else if fileExtension = bytes "html" ∨ fileExtension = bytes "htm" then "text/html"
  else if fileExtension = bytes "jpg" ∨ fileExtension = bytes "jpeg" then "image/jpeg"
  else if fileExtension = bytes "png" then "image/png"
  else if fileExtension = bytes "css" then "text/css"
  else if fileExtension = bytes "js" then "application/javascript"
  else if fileExtension = bytes "pdf" then "application/pdf"
  else "text/plain"

def httpSendFile (fs : FileSystem) (path : List UInt8) : Answer :=
  if fs.opens path then ⟨200, some (httpGetMimeType path), .file path, [path]⟩ else notFound

def httpSendDir (fs : FileSystem) (path : List UInt8) : Answer :=
  ⟨200, some "text/html", .listing path, if fs.opendir path then [path] else []⟩

def indexHtml : List UInt8 := bytes "/index.html"

def handleFilesRequest (fs : FileSystem) (serverFilesDirectory received : List UInt8) : Option Answer :=
  match httpRequestParse received with
  | none => some notFound
  | some request =>
    ((strcpy serverFilesDirectory).bind (strcat · request.path)).bind fun fullPath =>
      match fs.stat fullPath with
      | some .regular => some (httpSendFile fs fullPath)
      | some .directory =>
        ((strcpy fullPath).bind (strcat · indexHtml)).map fun indexPath =>
          -- the index is opened to see whether it is there, and again to be sent
          if fs.opens indexPath then
            { httpSendFile fs indexPath with opened := indexPath :: (httpSendFile fs indexPath).opened }
          else httpSendDir fs fullPath
      | _ => some notFound

variable {fs : FileSystem} {dir path received : List UInt8} {request : HttpRequest}

/-- Both paths fit, and what is opened lies under the files directory. -/
def ServesInside (fs : FileSystem) (dir received : List UInt8) : Prop :=
  ∃ answer, handleFilesRequest fs dir received = some answer ∧ ∀ p ∈ answer.opened, (resolve dir).Under (resolve p)

structure Harmless (fs : FileSystem) (dir path : List UInt8) : Prop where
  fits : dir.length + path.length < MAX_ADDR
  indexFits : fs.stat (dir ++ path) = some .directory → dir.length + path.length + indexHtml.length < MAX_ADDR
  file : fs.stat (dir ++ path) = some .regular → fs.opens (dir ++ path) = true → StaysUnder dir path
  index : fs.stat (dir ++ path) = some .directory → fs.opens (dir ++ path ++ indexHtml) = true →
    StaysUnder dir (path ++ indexHtml)
  listing : fs.stat (dir ++ path) = some .directory → fs.opens (dir ++ path ++ indexHtml) = false →
    fs.opendir (dir ++ path) = true → StaysUnder dir path

lemma strcat_strcpy (a b : List UInt8) :
    (strcpy a).bind (strcat · b) = if a.length + b.length < MAX_ADDR then some (a ++ b) else none := by
  rw [strcpy, strcat, List.length_nil, List.nil_append, Nat.zero_add]
  by_cases hfit : a.length + b.length < MAX_ADDR
  · rw [if_pos (by omega), Option.bind_some, strcat]
  · rw [if_neg hfit]
    split
    · rw [Option.bind_some, strcat, if_neg hfit]
    · rfl

lemma opened_httpSendFile (p : List UInt8) : (httpSendFile fs p).opened = if fs.opens p then [p] else [] := by
  rw [httpSendFile]
  split <;> rfl

lemma handleFilesRequest_eq (fs : FileSystem) (dir : List UInt8) (h : httpRequestParse received = some request) :
    handleFilesRequest fs dir received =
    if dir.length + request.path.length < MAX_ADDR then
      match fs.stat (dir ++ request.path) with
      | some .regular => some (httpSendFile fs (dir ++ request.path))
      | some .directory =>
        if dir.length + request.path.length + indexHtml.length < MAX_ADDR then
          some (if fs.opens (dir ++ request.path ++ indexHtml) then
            { httpSendFile fs (dir ++ request.path ++ indexHtml) with
              opened := (dir ++ request.path ++ indexHtml) ::
              (httpSendFile fs (dir ++ request.path ++ indexHtml)).opened }
            else httpSendDir fs (dir ++ request.path))
        else none
      | _ => some notFound
    else none := by
  -- one equation a kind of what is asked for
  rw [handleFilesRequest, h]
  simp only [strcat_strcpy]
  split
  · rw [Option.bind_some]
    cases fs.stat (dir ++ request.path) with
    | none => rfl
    | some kind =>
      cases kind with
      | regular => rfl
      | other => rfl
      | directory =>
        simp only [List.length_append]
        split <;> rfl
  · rfl

lemma under_opened_httpSendFile (rest : List UInt8) :
    (∀ p ∈ (httpSendFile fs (dir ++ rest)).opened, (resolve dir).Under (resolve p)) ↔
      (fs.opens (dir ++ rest) = true → StaysUnder dir rest) := by
  rw [opened_httpSendFile, ← under_iff]
  split
  · rename_i hopen
    rw [List.forall_mem_singleton, imp_iff_right hopen]
  · rename_i hopen
    exact iff_of_true nofun fun h => absurd h hopen

lemma under_opened_httpSendDir (rest : List UInt8) :
    (∀ p ∈ (httpSendDir fs (dir ++ rest)).opened, (resolve dir).Under (resolve p)) ↔
      (fs.opendir (dir ++ rest) = true → StaysUnder dir rest) := by
  rw [httpSendDir, ← under_iff]
  split
  · rename_i hopen
    rw [List.forall_mem_singleton, imp_iff_right hopen]
  · rename_i hopen
    exact iff_of_true nofun fun h => absurd h hopen

lemma servesInside_iff_of_eq {answer : Answer} (h : handleFilesRequest fs dir received = some answer) :
    ServesInside fs dir received ↔ ∀ p ∈ answer.opened, (resolve dir).Under (resolve p) := by
  rw [ServesInside, h]
  constructor
  · rintro ⟨a, ha, hopened⟩
    cases ha
    exact hopened
  · exact fun hopened => ⟨answer, rfl, hopened⟩

lemma not_servesInside (h : handleFilesRequest fs dir received = none) : ¬ServesInside fs dir received := by
  rintro ⟨a, ha, -⟩
  rw [h] at ha
  cases ha

theorem serves_inside_iff (fs : FileSystem) (dir received : List UInt8) (request : HttpRequest)
    (h : httpRequestParse received = some request) :
    ServesInside fs dir received ↔ Harmless fs dir request.path := by
  have heq := handleFilesRequest_eq fs dir h
  by_cases hfits : dir.length + request.path.length < MAX_ADDR
  swap
  · rw [if_neg hfits] at heq
    exact iff_of_false (not_servesInside heq) fun hh => hfits hh.fits
  rw [if_pos hfits] at heq
  cases hstat : fs.stat (dir ++ request.path) with
  | none =>
    rw [hstat] at heq
    exact iff_of_true ((servesInside_iff_of_eq heq).mpr nofun)
      ⟨hfits, by simp [hstat], by simp [hstat], by simp [hstat], by simp [hstat]⟩
  | some kind =>
    rw [hstat] at heq
    cases kind with
    | other =>
      exact iff_of_true ((servesInside_iff_of_eq heq).mpr nofun)
        ⟨hfits, by simp [hstat], by simp [hstat], by simp [hstat], by simp [hstat]⟩
    | regular =>
      rw [servesInside_iff_of_eq heq, under_opened_httpSendFile]
      exact ⟨fun hfile => ⟨hfits, by simp [hstat], fun _ => hfile, by simp [hstat], by simp [hstat]⟩,
        fun hh => hh.file hstat⟩
    | directory =>
      by_cases hindexFits : dir.length + request.path.length + indexHtml.length < MAX_ADDR
      swap
      · simp only [if_neg hindexFits] at heq
        exact iff_of_false (not_servesInside heq) fun hh => hindexFits (hh.indexFits hstat)
      simp only [if_pos hindexFits, List.append_assoc] at heq
      rw [servesInside_iff_of_eq heq]
      cases hindex : fs.opens (dir ++ (request.path ++ indexHtml)) with
      | true =>
        rw [if_pos rfl, List.forall_mem_cons, under_opened_httpSendFile, hindex, imp_iff_right rfl, under_iff,
          and_self]
        refine ⟨fun hunder => ⟨hfits, fun _ => hindexFits, by simp [hstat], fun _ _ => hunder, ?_⟩,
          fun hh => hh.index hstat ?_⟩
        · simp [hindex]
        · rwa [List.append_assoc]
      | false =>
        rw [if_neg Bool.false_ne_true, under_opened_httpSendDir]
        refine ⟨fun hdir => ⟨hfits, fun _ => hindexFits, by simp [hstat], ?_, fun _ _ => hdir⟩,
          fun hh => hh.listing hstat ?_⟩
        · simp [hindex]
        · rwa [List.append_assoc]

def allFiles : FileSystem := ⟨fun _ => some .regular, fun _ => true, fun _ => false⟩

theorem serves_inside_iff_page : ServesInside allFiles (bytes "www") (bytes "GET /a/../page.html HTTP/1.0\n") :=
  (serves_inside_iff allFiles (bytes "www") (bytes "GET /a/../page.html HTTP/1.0\n")
    ⟨bytes "GET", bytes "/a/../page.html"⟩ (by decide)).mpr
    ⟨by decide, nofun, fun _ _ => ⟨by decide, by decide, by decide⟩, nofun, nofun⟩

def longRequest : List UInt8 := bytes "GET /" ++ List.replicate 1100 97 ++ bytes " HTTP/1.0\n"

theorem served_outside : (httpRequestParse (bytes "GET /../secret HTTP/1.0\n")).isSome = true ∧
    ¬ServesInside allFiles (bytes "www") (bytes "GET /../secret HTTP/1.0\n") ∧
    (httpRequestParse longRequest).isSome = true ∧ ¬ServesInside allFiles (bytes "www") longRequest := by
  have hanswer : handleFilesRequest allFiles (bytes "www") (bytes "GET /../secret HTTP/1.0\n") =
      some (httpSendFile allFiles (bytes "www/../secret")) := by
    decide
  have hoverflow : handleFilesRequest allFiles (bytes "www") longRequest = none := by decide +kernel
  refine ⟨by decide +kernel, ?_, by decide +kernel, not_servesInside hoverflow⟩
  rw [servesInside_iff_of_eq hanswer]
  intro hunder
  have hnames := (hunder (bytes "www/../secret") (by decide)).below.names
  exact absurd hnames (by decide)

end CourseArchive.HttpServer
