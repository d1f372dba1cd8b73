import YellowBull.Agent.Bounds
import YellowBull.Agent.Concurrency
import YellowBull.Agent.Context
import YellowBull.Agent.Fallback
import YellowBull.Agent.Outcomes
import YellowBull.AnthropicProvider.Encoding
import YellowBull.AnthropicProvider.Requests
import YellowBull.AnthropicProvider.Streaming
import YellowBull.Api.Authentication
import YellowBull.Api.ChatProgress
import YellowBull.Api.Connections
import YellowBull.Api.EventFraming
import YellowBull.Api.InjectionPatterns
import YellowBull.Api.InputValidation
import YellowBull.Api.Listings
import YellowBull.Api.Providers
import YellowBull.Api.Quota
import YellowBull.BaseTool.Retry
import YellowBull.BaseTool.Schema
import YellowBull.Builtins.AbsolutePaths
import YellowBull.Builtins.CommandStarts
import YellowBull.Builtins.FileRuns
import YellowBull.Builtins.ReadFile
import YellowBull.CacheManager.JsonValues
import YellowBull.CacheManager.TimedMap
import YellowBull.ContextBuilder.SummaryBudget
import YellowBull.LoggingSetup
import YellowBull.OpenAIProvider.Streaming
import YellowBull.Repl.Conversations
import YellowBull.Repl.Survival
import YellowBull.SessionManager.Expiry
import YellowBull.Settings.Environment
import YellowBull.Settings.Reload
import YellowBull.Settings.Validation
import YellowBull.Settings.Watching
import YellowBull.ShortTermMemory
import YellowBull.TaskQueue.Serving
import YellowBull.TaskQueue.Workers
import YellowBull.ToolExecutor.CacheKey
import YellowBull.ToolExecutor.Freshness
import YellowBull.ToolExecutor.Idempotence
import YellowBull.ToolExecutor.KeyErrors
import YellowBull.ToolExecutor.Retry
import YellowBull.ToolExecutor.Validation
