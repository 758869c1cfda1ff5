import Pgokf.Workspace.Tree

/-! # What a build is asked for (`pgokf-workspace`, `plugin.rs`)

The options of a build, and everything about them that can be refused. -/

namespace Pgokf.Workspace

open Lib Catalog Sync

inductive Component where
  | mcp
  | guide
  | tools
  deriving DecidableEq

structure BuildOptions where
  target : Target
  name : Text
  title : Option Text
  baseModel : Option Text
  components : List Component
  mcpCommand : Option Text
  mcpUrl : Option Text
  tenant : Option Text
  webUrl : Option Text
  harness : Option CustomHarness

/-- `map(str::trim).filter(|t| !t.is_empty())`. -/
def givenText (raw : Option Text) : Option Text := (raw.map trim).filter fun t => !t.isEmpty

def BuildOptions.remoteEndpoint (options : BuildOptions) : Option Text := givenText options.mcpUrl

def BuildOptions.profile (options : BuildOptions) : Except BuildError Profile :=
  if options.target = .custom then
    orRefuse (options.harness.map CustomHarness.profile)
      (.invalid ("target custom needs a harness: the agent's name and, for a skills package, " ++
        "the directory it reads skills from"))
  else orRefuse (Profile.of options.target) (.invalid "unknown target")

def packageName (unicode : Unicode) (name : Text) : Except BuildError Text :=
  let trimmed := trim name
  if trimmed.isEmpty then .ok defaultName
  else do
    ensure (trimmed.any Char.isAlphanum)
      (.invalid ("package name " ++ debugText trimmed ++
        " needs at least one letter or digit (a-z, 0-9)"))
    pure (slug unicode trimmed)

def validatedBaseModel (raw : Option Text) : Except BuildError Text := do
  let model := (givenText raw).getD "llama3.1"
  ensure (model.all fun c => c.isAlphanum || "._:/-".toList.contains c)
    (.invalid ("base model " ++ debugText model ++ " is not a model reference"))
  pure model

def isAsciiGraphic (c : Char) : Bool := 0x21 ≤ c.toNat && c.toNat ≤ 0x7e

def shellMetacharacters : List Char := "'\"`$\\()\x7b\x7d;&|<>"

def startsWith (start : String) (t : Text) : Bool := start.toList.isPrefixOf t

def validatedWebUrl (raw : Option Text) : Except BuildError (Option Text) :=
  match givenText raw with
  | none => .ok none
  | some url => do
    ensure ((startsWith "http://" url || startsWith "https://" url) &&
        url.all fun c => isAsciiGraphic c && !shellMetacharacters.contains c)
      (.invalid ("web URL " ++ debugText url ++
        " is not an http(s) URL, or holds a character a shell would read as syntax"))
    pure (some (trimEndMatches (· == '/') url))

def mcpUrlMax : Nat := 512

def afterScheme (url : Text) : Option Text :=
  if startsWith "https://" url then some (url.drop 8)
  else if startsWith "http://" url then some (url.drop 7)
  else none

def validatedMcpUrl (raw : Option Text) : Except BuildError (Option Text) :=
  match givenText raw with
  | none => .ok none
  | some url => do
    ensure (utf8Len url ≤ mcpUrlMax)
      (.invalid ("MCP endpoint is " ++ toString (utf8Len url) ++ " characters; the most is " ++
        toString mcpUrlMax))
    let rest ← orRefuse (afterScheme url)
      (.invalid ("MCP endpoint " ++ debugText url ++ " is not an http(s) URL"))
    ensure (url.all fun c => isAsciiGraphic c && !"'\"`".toList.contains c)
      (.invalid ("MCP endpoint " ++ debugText url ++ " is not a URL"))
    let authority := rest.takeWhile fun c => !"/?#".toList.contains c
    ensure (!authority.isEmpty) (.invalid ("MCP endpoint " ++ debugText url ++ " names no host"))
    ensure (!authority.contains '@')
      (.invalid ("MCP endpoint " ++ debugText url ++
        " carries credentials; the token goes in the Authorization " ++
        "header, which this build references rather than writes"))
    ensure (!rest.any fun c => "?#".toList.contains c)
      (.invalid ("MCP endpoint " ++ debugText url ++
        " carries a query or a fragment; the endpoint is a path, and " ++
        "a token put in one would be written into files meant to be committed"))
    pure (some url)

def validateOptions (options : BuildOptions) (profile : Profile) : Except BuildError Unit := do
  let _ ← validatedWebUrl options.webUrl
  let _ ← validatedMcpUrl options.mcpUrl
  if options.remoteEndpoint.isNone then pure ()
  else do
    ensure (givenText options.mcpCommand).isNone
      (.invalid "mcp_url and mcp_command are alternatives: an HTTP endpoint is reached, not started")
    ensure (profile.mcp.all fun spec => spec.remote.isSome)
      (.invalid (String.ofList profile.label ++
        " documents no remote MCP server form, so this build cannot point " ++
        "at an HTTP endpoint; leave mcp_url out to configure the stdio server"))

/-- An octet of a dotted address: up to three digits, no leading zero. -/
def parseOctet (t : Text) : Option Nat :=
  let value := t.foldl (fun n c => n * 10 + (c.toNat - 48)) 0
  if !t.isEmpty && t.length ≤ 3 && t.all Char.isDigit && (t.head? != some '0' || t.length == 1) &&
    value ≤ 255 then
    some value
  else none

def isLoopbackV4 (host : Text) : Bool :=
  match (host.splitOn '.').map parseOctet with
  | [some first, some _, some _, some _] => first == 127
  | _ => false

/-- The host of an endpoint: a port is cut off when the colon before it does not belong to an
address. -/
def endpointHost (authority : Text) : Text :=
  match rsplitOnce ':' authority with
  | some (head, port) =>
    if !port.isEmpty && port.all Char.isDigit && (head.getLast? == some ']' || !head.contains ':')
      then head
    else authority
  | none => authority

def isLoopbackEndpoint (url : Text) : Bool :=
  (afterScheme url).any fun rest =>
    let host := endpointHost (rest.takeWhile (· != '/'))
    host.map Char.toLower == "localhost" || host == "[::1]" || isLoopbackV4 host

def validatedCommand (raw : Option Text) : Except BuildError Text := do
  let command := (givenText raw).getD "pgokf-mcp"
  ensure (command.all fun c => c.isAlphanum || "._/-\\:".toList.contains c)
    (.invalid ("MCP command " ++ debugText command ++ " is not a program name or path"))
  pure command

def validatedPluginCommand (command : Text) : Except BuildError Text := do
  let bare := !command.any fun c => "/\\:".toList.contains c
  let relative := startsWith "./" command && !command.any (fun c => "\\:".toList.contains c) &&
    !(command.splitOn '/').contains ".."
  ensure (bare || relative)
    (.invalid ("MCP command " ++ debugText command ++
      " is not valid for an Agent Plugin: use a bare program name " ++
      "(resolved on PATH) or a plugin-relative path beginning with ./"))
  pure command

def checkMcpEntry (spec : McpSpec) (options : BuildOptions) : Except BuildError Unit :=
  if options.remoteEndpoint.isSome then do
    let given ← validatedMcpUrl options.mcpUrl
    let url ← orRefuse given (.invalid "no MCP endpoint to configure")
    let _ ← orRefuse spec.remote (.invalid "this harness documents no remote MCP server form")
    ensure (spec.format != .agentPluginJson || !startsWith "http://" url || isLoopbackEndpoint url)
      (.invalid ("the Agent Plugins specification requires HTTPS for an endpoint that is not on the loopback " ++
        "interface, and this package declares that specification"))
  else do
    let command ← validatedCommand options.mcpCommand
    if spec.format = .agentPluginJson then
      let _ ← validatedPluginCommand command
      pure ()
    else pure ()

end Pgokf.Workspace
