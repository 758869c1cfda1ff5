import Pgokf.Sync.Package

/-! # Target profiles (`pgokf-workspace`, `profile.rs`)

Where each harness looks for what a build writes. The fields that only reach a generated text are
left out. -/

namespace Pgokf.Workspace

open Lib Sync

inductive Shape where
  | agentPlugin
  | skills
  | instructionFile
  | promptBundle
  | generic
  deriving DecidableEq

inductive Target where
  | agentPlugin
  | claudeCode
  | codex
  | hermesAgent
  | kimi
  | geminiCli
  | cursor
  | copilot
  | agentsDir
  | agentsMd
  | ollama
  | generic
  | custom
  deriving DecidableEq

inductive TokenRef where
  | dollar
  | dollarEnv
  | namedEnvVar
  | merge
  | forbidden
  deriving DecidableEq

inductive McpFormat where
  | mcpServersJson
  | copilotJson
  | codexToml
  | hermesYaml
  | agentPluginJson
  deriving DecidableEq

def McpFormat.fragmentPath : McpFormat → Text
  | .codexToml => "okf-mcp.toml"
  | .hermesYaml => "okf-hermes-mcp.yaml"
  | .mcpServersJson | .copilotJson | .agentPluginJson => "okf-mcp.json"

/- Of the remote form only how the token is referred to decides where the entry goes. -/
structure McpSpec where
  path : Text
  format : McpFormat
  remote : Option TokenRef
  deriving DecidableEq

/-- A remote entry whose token has to be typed in becomes a fragment to merge. -/
def McpSpec.location (spec : McpSpec) (remote : Bool) : Text :=
  if remote && spec.remote == some .merge then spec.format.fragmentPath else spec.path

structure Profile where
  target : Target
  label : Text
  shape : Shape
  root : Text
  mcp : Option McpSpec
  deriving DecidableEq

def mcpSpec (path : String) (format : McpFormat) (remote : TokenRef) : Option McpSpec :=
  some ⟨path.toList, format, some remote⟩

def profiles : List Profile :=
  [⟨.agentPlugin, "Agent Plugin (portable, Agent Plugins 1.0.0)", .agentPlugin, [],
      mcpSpec "mcp.json" .agentPluginJson .forbidden⟩,
    ⟨.claudeCode, "Claude Code", .skills, ".claude/skills", mcpSpec ".mcp.json" .mcpServersJson .dollar⟩,
    ⟨.codex, "Codex", .skills, ".agents/skills",
      mcpSpec ".codex/config.toml" .codexToml .namedEnvVar⟩,
    ⟨.hermesAgent, "Hermes Agent", .skills, ".hermes/skills",
      mcpSpec "okf-hermes-mcp.yaml" .hermesYaml .dollar⟩,
    ⟨.kimi, "Kimi Code CLI", .skills, ".kimi/skills", mcpSpec "okf-mcp.json" .mcpServersJson .merge⟩,
    ⟨.geminiCli, "Gemini CLI", .skills, ".gemini/skills",
      mcpSpec ".gemini/settings.json" .mcpServersJson .dollar⟩,
    ⟨.cursor, "Cursor", .skills, ".cursor/skills",
      mcpSpec ".cursor/mcp.json" .mcpServersJson .dollarEnv⟩,
    ⟨.copilot, "GitHub Copilot", .skills, ".github/skills",
      mcpSpec ".github/mcp.json" .copilotJson .merge⟩,
    ⟨.agentsDir, "Generic .agents/ directory (any Agent Skills harness)", .skills, ".agents/skills",
      mcpSpec "okf-mcp.json" .mcpServersJson .dollar⟩,
    ⟨.agentsMd, "AGENTS.md instruction file", .instructionFile, [],
      mcpSpec "okf-mcp.json" .mcpServersJson .dollar⟩,
    ⟨.ollama, "Ollama / bare model (prompt bundle)", .promptBundle, "okf-prompt", none⟩,
    ⟨.generic, "Generic (index plus files)", .generic, "okf-knowledge",
      mcpSpec "okf-mcp.json" .mcpServersJson .dollar⟩]

def Profile.of (target : Target) : Option Profile := profiles.find? fun profile =>
    profile.target == target

def labelMax : Nat := 60
def skillsDirMax : Nat := 200

def isPlain (c : Char) : Bool := c.isAlphanum || c == '.' || c == '_' || c == '-'

def isPlainSegment (segment : Text) : Bool :=
  !segment.isEmpty && segment != "." && segment != ".." && segment.all isPlain

def isSkillsDir (dir : Text) : Bool :=
  !dir.isEmpty && decide (utf8Len dir ≤ skillsDirMax) && dir.head? != some '/' &&
    (dir.splitOn '/').all isPlainSegment

/-- A description that `CustomHarness::new` has accepted. -/
structure CustomHarness where
  label : Text
  shape : Shape
  skillsDir : Option Text
  named : 1 ≤ label.length ∧ label.length ≤ labelMax ∧ label.any isControl = false
  placed : if shape = .skills then skillsDir.any isSkillsDir = true else skillsDir = none

def Shape.base : Shape → Target
  | .agentPlugin => .agentPlugin
  | .skills => .agentsDir
  | .instructionFile => .agentsMd
  | .promptBundle => .ollama
  | .generic => .generic

def CustomHarness.profile (harness : CustomHarness) : Profile where
  target := .custom
  label := harness.label
  shape := harness.shape
  root := harness.skillsDir.getD (((Profile.of harness.shape.base).map (·.root)).getD [])
  mcp := (Profile.of harness.shape.base).bind (·.mcp)

end Pgokf.Workspace
