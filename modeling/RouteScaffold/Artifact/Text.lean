import RouteScaffold.Artifact.Layout
import RouteScaffold.Artifact.Script

/-! The text of a generated module.

A module starts with the marker that says it is generated, behind the server
directive if it has one, and the imports. Each declaration follows behind an empty
line; where nothing is imported the first one follows the marker directly. -/
namespace RouteScaffold.Artifact
open Route Text.Quoted

def marker : String := "// @generated by routegen. Do not edit."

def serverDirective : String := "\"use server\";"

def ImportedName.text (n : ImportedName) : String := if n.isType then "type " ++ n.name else n.name

def Binding.text : Binding → String
  | .all name => "* as " ++ name
  | .names imported => inBraces (", ".intercalate (imported.map ImportedName.text))

def Import.text (i : Import) : String :=
  (if i.typeOnly then "import type " else "import ") ++ i.binding.text ++ " from \"" ++ i.module ++
    "\";"

/-! ### The client -/

/-- The types a client's methods share. -/
def clientTypes : List String :=
  block "export interface RequestOptions"
    ["signal?: AbortSignal;",
     "headers?: Record<string, string>;"] "" ++
  [""] ++
  block "interface RequestParts"
    ["body?: unknown;",
     "searchParams?: Record<string, unknown>;",
     "headers?: Record<string, unknown>;"] ""

def RequestPart.text (p : RequestPart) : String := p.name ++ ": input." ++ p.name

def ClientMethod.lines (m : ClientMethod) : List String :=
  let parts :=
    if m.parts.isEmpty then "\x7b\x7d"
    else inBraces (", ".intercalate (m.parts.map RequestPart.text))
  block ("async " ++ m.method.token ++ "(" ++ m.input.text ++
      ", options: RequestOptions = \x7b\x7d): Promise<" ++ m.response ++ ">")
    ["return this.request<" ++ m.response ++ ">(\"" ++ m.method.verb ++ "\", " ++ m.url ++ ", " ++
      parts ++ ", options);"] ""

/-- The method of a client that sends every request. -/
def requestMethod : List String :=
  ["private async request<T>("] ++
  indent
    ["method: string,",
     "path: string,",
     "init: RequestParts,",
     "options: RequestOptions,"] ++
  block "): Promise<T>"
    (["const query = new URLSearchParams();"] ++
     block "for (const [key, value] of Object.entries(init.searchParams ?? \x7b\x7d))"
       ["if (value !== undefined && value !== null) query.set(key, String(value));"] "" ++
     ["const search = query.toString();",
      "",
      "const headers: Record<string, string> = \x7b\x7d;"] ++
     block ("for (const [key, value] of Object.entries(\x7b ...init.headers, ...options.headers " ++
         "\x7d))")
       ["if (value !== undefined && value !== null) headers[key] = String(value);"] "" ++
     ["if (init.body !== undefined) headers[\"Content-Type\"] = \"application/json\";",
      ""] ++
     block ("const response = await fetch(`$\x7bthis.baseUrl\x7d$\x7bpath\x7d" ++
         "$\x7bsearch ? `?$\x7bsearch\x7d` : \"\"\x7d`,")
       ["method,",
        "headers,",
        "body: init.body === undefined ? undefined : JSON.stringify(init.body),",
        "signal: options.signal,"] ");" ++
     block "if (!response.ok)"
       ["throw new Error(`$\x7bmethod\x7d $\x7bpath\x7d failed with status " ++
         "$\x7bresponse.status\x7d`);"] "" ++
     ["if (response.status === 204) return undefined as T;",
      "return (await response.json()) as T;"]) ""

def clientLines (name : String) (methods : List ClientMethod) : List String :=
  block ("export class " ++ name)
    (["constructor(private readonly baseUrl: string = \"\") \x7b\x7d", ""] ++
     methods.flatMap (fun m => m.lines ++ [""]) ++
     requestMethod) ""

/-! ### Hooks -/

def QueryHook.lines (h : QueryHook) : List String :=
  block ("export function " ++ h.name ++ "(" ++ h.input.text ++ ")")
    (["const [data, setData] = useState<" ++ h.response ++ " | undefined>(undefined);",
      "const [error, setError] = useState<Error | null>(null);",
      "const [isLoading, setIsLoading] = useState(true);",
      "const controllerRef = useRef<AbortController | null>(null);",
      "const inputKey = JSON.stringify(input);",
      ""] ++
     block "const refetch = useCallback(async () =>"
       (["controllerRef.current?.abort();",
         "const controller = new AbortController();",
         "controllerRef.current = controller;",
         "setIsLoading(true);",
         "setError(null);",
         "try \x7b"] ++
        indent
          (block ("const result = await client." ++ h.method.token ++
              "(JSON.parse(inputKey) as " ++ h.input.type ++ ",")
            ["signal: controller.signal,"] ");" ++
           ["if (!controller.signal.aborted) setData(result);"]) ++
        ["\x7d catch (err) \x7b"] ++
        indent
          (block "if (!controller.signal.aborted)"
            ["setError(err instanceof Error ? err : new Error(String(err)));"] "") ++
        block "\x7d finally"
          ["if (!controller.signal.aborted) setIsLoading(false);"] "") ", [inputKey]);" ++
     [""] ++
     block "useEffect(() =>"
       ["void refetch();",
        "return () => controllerRef.current?.abort();"] ", [refetch]);" ++
     ["",
      "return \x7b data, error, isLoading, refetch \x7d;"]) ""

def MutationHook.lines (h : MutationHook) : List String :=
  block ("export function " ++ h.name ++ "()")
    (["const [data, setData] = useState<" ++ h.response ++ " | undefined>(undefined);",
      "const [error, setError] = useState<Error | null>(null);",
      "const [isLoading, setIsLoading] = useState(false);",
      ""] ++
     block ("const " ++ h.invoke ++ " = useCallback(async (" ++ h.input.text ++ ") =>")
       (["setIsLoading(true);",
         "setError(null);",
         "try \x7b"] ++
        indent
          ["const result = await " ++ h.callee.text ++ "(" ++ h.input.name ++ ");",
           "setData(result);",
           "return result;"] ++
        ["\x7d catch (err) \x7b"] ++
        indent
          ["const failure = err instanceof Error ? err : new Error(String(err));",
           "setError(failure);",
           "throw failure;"] ++
        block "\x7d finally" ["setIsLoading(false);"] "") ", []);" ++
     ["",
      "return \x7b " ++ h.invoke ++ ", data, error, isLoading \x7d;"]) ""

/-! ### Actions and forms -/

def Action.lines (a : Action) : List String :=
  block ("export async function " ++ a.name ++ "(input: " ++ a.input ++ "): Promise<" ++
      a.response ++ ">")
    ["return invokeHandler(" ++ configAlias a.config ++ ", input);"] ""

def FormAction.lines (f : FormAction) : List String :=
  block ("export async function " ++ f.action.name ++ "(formData: FormData): Promise<" ++
      f.action.response ++ ">")
    (block "const input =" (f.readings.flatMap FacetReading.lines) ";" ++
     ["return invokeHandler(" ++ configAlias f.action.config ++ ", input as " ++ f.action.input ++
       ");"]) ""

/-- The functions that read single values and whole facets from a form. -/
def formReaders : List String :=
  block "function readString(formData: FormData, key: string): string | undefined"
    ["const value = formData.get(key);",
     "return typeof value === \"string\" && value !== \"\" ? value : undefined;"] "" ++
  [""] ++
  block "function readNumber(formData: FormData, key: string): number | undefined"
    ["const value = readString(formData, key);",
     "return value === undefined ? undefined : Number(value);"] "" ++
  [""] ++
  block "function readBoolean(formData: FormData, key: string): boolean"
    ["const value = formData.get(key);",
     "return value === \"on\" || value === \"true\";"] "" ++
  [""] ++
  block ("function readPrefixed(formData: FormData, prefix: string): " ++
      "Record<string, FormDataEntryValue>")
    (["const values: Record<string, FormDataEntryValue> = \x7b\x7d;"] ++
     block "for (const [key, value] of formData.entries())"
       ["if (key.startsWith(prefix)) values[key.slice(prefix.length)] = value;"] "" ++
     ["return values;"]) ""

def formDefinitionType : List String :=
  block "export interface FormFieldDefinition"
    ["name: string;",
     "label: string;",
     "type: \"text\" | \"number\" | \"checkbox\";",
     "required: boolean;"] ""

def formDefinitionsLines (name : String) (inputs : List FormInput) : List String :=
  ["export const " ++ name ++ ": FormFieldDefinition[] = ["] ++
  inputs.map FormInput.definitionLine ++
  ["];"]

def formComponentLines (name : String) (inputs : List FormInput) : List String :=
  block ("export function " ++ name ++ "()")
    (["return ("] ++
     indent (["<>"] ++ indent (inputs.flatMap FormInput.markup) ++ ["</>"]) ++
     [");"]) ""

/-! ### Declarations and modules -/

def Declaration.lines : Declaration → List String
  | .routeConstants methods =>
    methods.map fun m =>
      "export const " ++ m.verb ++ " = createRoute(" ++ configAlias m ++ ");"
  | .handler segments methods =>
    enclose "export default createPagesRoute(\x7b"
      (["segments: [" ++ ", ".intercalate (segments.map quote) ++ "],"] ++
       block "methods:" (methods.map fun m => m.verb ++ ": " ++ configAlias m ++ ",") ",") "\x7d);"
  | .inputType name members =>
    if members.isEmpty then ["export interface " ++ name ++ " \x7b\x7d"]
    else block ("export interface " ++ name) (members.map Member.text) ""
  | .responseType name config =>
    ["export type " ++ name ++ " = z.infer<typeof " ++ configAlias config ++
      ".responseValidator>;"]
  | .clientTypes => Artifact.clientTypes
  | .client name methods => clientLines name methods
  | .clientInstance name => ["const client = new " ++ name ++ "();"]
  | .queryHook h => h.lines
  | .mutationHook h => h.lines
  | .action a => a.lines
  | .formReaders => Artifact.formReaders
  | .formAction f => f.lines
  | .formDefinitionType => Artifact.formDefinitionType
  | .formDefinitions name inputs => formDefinitionsLines name inputs
  | .formComponent name inputs => formComponentLines name inputs

/-- The lines of a module. -/
def Script.lines (s : Script) : List String :=
  let head := (if s.onServer then [serverDirective] else []) ++ [marker] ++
    s.imports.map Import.text
  let blocks := s.declarations.map Declaration.lines
  match s.imports, blocks with
  | [], first :: rest => head ++ first ++ rest.flatMap ("" :: ·)
  | _, _ => head ++ blocks.flatMap ("" :: ·)

def Script.text (s : Script) : String := unlines s.lines

end RouteScaffold.Artifact
