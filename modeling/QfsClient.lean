import QfsClient.Basic
import QfsClient.CommandBuffer
import QfsClient.Jansson.Value
import QfsClient.Jansson.Load
import QfsClient.Jansson.Fuel
import QfsClient.Jansson.Dump
import QfsClient.Jansson.Tokens
import QfsClient.Jansson.RoundTrip
import QfsClient.Jansson.Utf8
import QfsClient.Jansson.Strings
import QfsClient.Error
import QfsClient.Transport.Host
import QfsClient.Transport.PathResolver
import QfsClient.Transport.ControlChannel
import QfsClient.Transport.Faults
import QfsClient.Protocol.JsonApi
import QfsClient.Protocol.GetAccessed
import QfsClient.Protocol.Exchange
import QfsClient.Session
import QfsClient.Machine
