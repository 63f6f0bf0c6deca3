import Spidercheck.Model.Core
import Spidercheck.Text.Unicode

/-! The plugin `index_site`, which makes a document of a page and hands it to the
search adapter, and the names of `search.py`. -/
namespace Spidercheck

open Text Url

/-- What the plugin takes from the HTML libraries. -/
structure Markup (Tag : Type) where
  /-- `BeautifulSoup(body, 'html.parser')`. -/
  soup : Str → Except PyError Tag
  /-- `tag.find(name)`. -/
  find : Tag → Str → Option Tag
  /-- `tag.find_all(name)`. -/
  findAll : Tag → Str → List Tag
  /-- `tag.text`. -/
  text : Tag → Str
  /-- `tag.attrs`. -/
  attrs : Tag → Dict
  /-- The texts that `HTMLParser.feed` hands to `handle_data`. -/
  data : Str → Except PyError (List Str)

/-- The fields of `INDEX_SCHEMA`. -/
structure Document where
  id : Str
  pageId : Nat
  url : Str
  title : Str
  keywords : List Str
  area : Str
  h1 : List Str
  h2 : List Str
  h3 : List Str
  h4 : List Str
  h5 : List Str
  h6 : List Str
  body : Str
  version : Nat
  deriving DecidableEq, Repr

/-- `adapters.search`: a document that is added takes the place of the stored
document with its `id` in the named index. -/
structure SearchAdapter (Index : Type) where
  addDocuments : Str → List Document → Index → Index
  document : Index → Str → Str → Option Document
  document_addDocuments : ∀ name documents index name' id,
    document (addDocuments name documents index) name' id =
      if name' = name then (documents.reverse.find? (·.id == id)).or (document index name' id)
      else document index name' id

/-- The adapter that keeps one table for each index. -/
def SearchAdapter.tables : SearchAdapter (Str → Str → Option Document) where
  addDocuments name documents index name' id :=
    if name' = name then (documents.reverse.find? (·.id == id)).or (index name' id) else index name' id
  document index name id := index name id
  document_addDocuments _ _ _ _ _ := rfl

def indexName : Str := "web"

def words (s : Str) : List Str := (s.splitOnP isSpace).filter (· ≠ [])

def Dict.getText (d : Dict) (name : Str) : Str :=
  match d.find? (·.1 == name) with
  | some item => item.2
  | none => []

def noneAttribute (name : Str) : PyError :=
  { kind := .attributeError, text := "'NoneType' object has no attribute '" ++ name ++ "'" }

variable {Tag : Type} (markup : Markup Tag) (u : Unicode)

def stripTags (html : Str) : Except PyError Str := do
  let chunks ← markup.data html
  return List.intercalate " " (words chunks.flatten)

/-- What the loop over the `meta` tags collects. -/
structure MetaInfo where
  keywords : List Str
  area : Str
  version : Nat

/-- One turn of that loop. -/
def readMeta (info : MetaInfo) (tag : Tag) : Except PyError MetaInfo :=
  let attrs := markup.attrs tag
  let name := attrs.getText "name"
  let value := attrs.getText "content"
  if name = "area" then .ok { info with area := value }
  else if name = "version" then
    if u.allDigits value then
      match u.toNat value with
      | some version => .ok { info with version := version }
      | none => .error (valueError ("invalid literal for int() with base 10: '" ++ value ++ "'"))
    else .ok info
  else if name = "keywords" then
    if value ≠ [] then
      .ok { info with keywords := (value.splitOn ',').map fun keyword => u.lower (strip keyword) }
    else .ok info
  else .ok info

/-- `_get_info`. -/
def getInfo (py : Platform) (site : Site) (page : Page) (_headers : Headers) (body : Str) :
    Except PyError Document := do
  let soup ← markup.soup body
  match markup.find soup "title" with
  | none => .error (noneAttribute "text")
  | some title =>
    let info ← (markup.findAll soup "meta").foldlM (readMeta markup u)
      { keywords := [], area := [], version := 0 }
    match (markup.find soup "main").or (markup.find soup "body") with
    | none => .error (noneAttribute "text")
    | some main =>
      let text ← stripTags markup (markup.text main)
      let url ← page.getRelativeUrl py site
      let heading (name : Str) : List Str := (markup.findAll main name).map fun tag => strip (markup.text tag)
      return {
        id := url
        pageId := page.idPage
        url := url
        title := markup.text title
        keywords := info.keywords
        area := info.area
        h1 := heading "h1"
        h2 := heading "h2"
        h3 := heading "h3"
        h4 := heading "h4"
        h5 := heading "h5"
        h6 := heading "h6"
        body := text
        version := info.version }

/-- `process`: the answer of the plugin, and what it leaves in the index. -/
def indexSite {Index : Type} (adapter : SearchAdapter Index) (py : Platform) (site : Site) (page : Page)
    (headers : Headers) (body : Str) (index : Index) : Except PyError (Dict × Index) := do
  if contentIsHtml headers then
    let data ← getInfo markup u py site page headers body
    return ([], adapter.addDocuments indexName [data] index)
  else return ([], index)

variable {markup u} {py : Platform} {site : Site} {page : Page} {headers : Headers} {body : Str}
  {document : Document}

/-- A document is made of the page whose key it has, and its `id` is the relative URL. -/
theorem getInfo_eq_ok (h : getInfo markup u py site page headers body = .ok document) :
    page.getRelativeUrl py site = .ok document.id ∧ document.url = document.id ∧
      document.pageId = page.idPage := by
  obtain ⟨soup, -, h⟩ := (except_bind_eq_ok _).mp h
  split at h
  · cases h
  · obtain ⟨info, -, h⟩ := (except_bind_eq_ok _).mp h
    split at h
    · cases h
    · obtain ⟨text, -, h⟩ := (except_bind_eq_ok _).mp h
      obtain ⟨url, hUrl, h⟩ := (except_bind_eq_ok _).mp h
      obtain rfl := Except.ok.inj h
      exact ⟨hUrl, rfl, rfl⟩

/-- Indexing a page touches the document with the `id` of that page only. -/
theorem document_indexSite {Index : Type} {adapter : SearchAdapter Index} {index index' : Index}
    {answer : Dict} (h : indexSite markup u adapter py site page headers body index = .ok (answer, index'))
    {id : Str} (hOther : page.getRelativeUrl py site ≠ .ok id) :
    adapter.document index' indexName id = adapter.document index indexName id := by
  unfold indexSite at h
  split at h
  · obtain ⟨data, hInfo, h⟩ := (except_bind_eq_ok _).mp h
    obtain ⟨-, rfl⟩ := Prod.mk.inj (Except.ok.inj h)
    have hId : data.id ≠ id := by
      rintro rfl
      exact hOther (getInfo_eq_ok hInfo).1
    simp [adapter.document_addDocuments, hId]
  · obtain ⟨-, rfl⟩ := Prod.mk.inj (Except.ok.inj h)
    rfl

end Spidercheck
